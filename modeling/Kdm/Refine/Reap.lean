import Kdm.Refine.Config

/-!
# Session and server exits refine the model

The code clears the pid of a dead session first and closes its descriptors afterwards.  In the
model the descriptors are closed while the session is still there (`Ghost`), and the exit is
one action with what `exitDisplay` makes of the display.
-/

namespace Kdm

open Runs

variable {P : Act → Abs → Prop} {s : State} {a : Abs} {i : Id} {d : Display} {v : View} {w : Pipe}

/-! ## Closing a session -/

/-- The code has cleared the pid of display `i`, the model still has the session. -/
structure Ghost (i : Id) (v : View) (a : Abs) (s : State) : Prop where
  disp : a.disp i = some v
  eq : abs s = a.set i { v with pid := -1 }

theorem Ghost.find (h : Ghost i v a s) : ∃ d, s.find i = some d ∧ viewOf d = { v with pid := -1 } := by
  have hd : (abs s).disp i = some { v with pid := -1 } := by rw [h.eq]; simp
  obtain ⟨d, hd, hv⟩ := find_of_disp hd
  exact ⟨d, hd, hv.symm⟩

theorem viewOf_pipeFd (d : Display) (w : Pipe) : (viewOf d).pipeFd w = d.pipeFd w := by
  cases w <;> rfl

theorem Ghost.closePipe (hP : Ordinary P) (h : Ghost i v a s) (w : Pipe) :
    ∃ a', Steps P a a' ∧ Ghost i (v.closePipe w) a' (gClosen w i (unregisterPipe w i s)) := by
  obtain ⟨d, hd, hv⟩ := h.find
  have hfd : d.pipeFd w = v.pipeFd w := by
    rw [← viewOf_pipeFd, hv]; cases w <;> rfl
  have hun : unregisterPipe w i s = s.unregisterInput (d.pipeFd w) := withDisplay_some hd
  have hd1 : (s.unregisterInput (d.pipeFd w)).find i = some d := hd
  rw [hun]
  by_cases hopen : d.pipeFd w = -1
  · rw [gClosen_closed hd1 hopen]
    have hkeep : v.closePipe w = v := by
      rw [hfd] at hopen
      cases w
      · exact congrArg (fun p => ({ v with pipe := p } : View)) hopen.symm
      · exact congrArg (fun p => ({ v with gpipe := p } : View)) hopen.symm
    rw [hkeep]
    refine ⟨a.unregisterAll [d.pipeFd w], Path.one (.unregister _) (hP _ _ rfl) rfl, h.disp, ?_⟩
    rw [abs_unregisterInput, h.eq]
    rfl
  · have hset : abs (gClosen w i (s.unregisterInput (d.pipeFd w))) =
        ((a.set i (({ v with pid := -1 } : View).closePipe w)).closeAll [v.pipeFd w]).unregisterAll
          [v.pipeFd w] := by
      rw [gClosen_open hd1 hopen, abs_unregisterInput, h.eq, hv, hfd]
      simp [Abs.unregisterAll, Abs.closeAll, Abs.set]
    rw [hfd] at hopen
    refine ⟨((a.set i (v.closePipe w)).closeAll [v.pipeFd w]).unregisterAll [v.pipeFd w], ?_, ?_, ?_⟩
    · cases w
      · exact Path.one (.closePipe i) (hP _ _ rfl) ⟨v, h.disp, hopen, rfl⟩
      · exact Path.one (.closeGPipe i) (hP _ _ rfl) ⟨v, h.disp, hopen, rfl⟩
    · exact Abs.set_disp.trans (if_pos rfl)
    · rw [← hfd, hset, hfd]
      cases w <;> simp [Abs.unregisterAll, Abs.closeAll, Abs.set, View.closePipe]

theorem Ghost.closeCtrl (hP : Ordinary P) (h : Ghost i v a s) :
    ∃ a' v', Steps P a a' ∧ Ghost i v' a' (closeCtrl (some i) s) ∧ v'.ctrl < 0 ∧
      ∃ c css, v' = { v with ctrl := c, css := css } := by
  obtain ⟨d, hd, hv⟩ := h.find
  have hc : v.ctrl = d.ctrl.fd ∧ v.css = d.ctrl.css :=
    ⟨(congrArg View.ctrl hv).symm, (congrArg View.css hv).symm⟩
  by_cases hlt : d.ctrl.fd < 0
  · rw [closeCtrl_closed (ctrlOf_display hd) hlt]
    exact ⟨a, v, Path.nil _, h, by omega, v.ctrl, v.css, rfl⟩
  · have hle : 0 ≤ d.ctrl.fd := by omega
    refine ⟨((a.setCtrl (some i) (-1) []).closeAll (ctrlFds (v.ctrl, v.css))).unregisterAll
      (ctrlFds (v.ctrl, v.css)), { v with ctrl := -1, css := [] },
      Path.one (.closeCtrl (some i)) (hP _ _ rfl) ⟨_, by simp [Abs.ctrlOf, h.disp], rfl⟩,
      ⟨?_, ?_⟩, by show (-1 : Int) < 0; decide, -1, [], rfl⟩
    · rw [Abs.setCtrl_some _ _ _ h.disp]
      exact Abs.set_disp.trans (if_pos rfl)
    · have hle' : 0 ≤ v.ctrl := by omega
      rw [closeCtrl_open (ctrlOf_display hd) hle, h.eq, Abs.setCtrl_some _ _ _ h.disp,
        Abs.setCtrl_some (v := { v with pid := -1 }) _ _ _ (by rw [Abs.set_disp, if_pos rfl]),
        ← hc.1, ← hc.2]
      simp [Abs.unregisterAll, Abs.closeAll, Abs.set, ctrlFds, hle']

/-- All descriptors of a dead session are closed before the model notes its end. -/
theorem closeSession_steps (hP : Ordinary P) (h : Ghost i v a s) (hpid : v.pid ≠ -1) :
    ∃ a' v', Steps P a a' ∧ Ghost i v' a' (closeSession i s) ∧ Reap.session.ok v' ∧
      ∃ c css, v' = { v with pipe := -1, gpipe := -1, ctrl := c, css := css } := by
  obtain ⟨a1, h1, hg1⟩ := h.closePipe hP .pipe
  obtain ⟨a2, h2, hg2⟩ := hg1.closePipe hP .gpipe
  obtain ⟨a3, v3, h3, hg3, hlt, c, css, rfl⟩ := hg2.closeCtrl hP
  exact ⟨a3, _, h1.trans (h2.trans h3), hg3, ⟨hpid, rfl, rfl, hlt⟩, c, css, rfl⟩

/-! ### What the code keeps of the display -/

theorem gClosen_find (hd : s.find i = some d) :
    (gClosen w i s).find i = some (d.setPipeFd (-1) w) := by
  by_cases hopen : d.pipeFd w = -1
  · rw [gClosen_closed hd hopen, hd]
    cases w
    · exact congrArg (fun p => some { d with pipe := p }) hopen
    · exact congrArg (fun p => some { d with gpipe := p }) hopen
  · unfold gClosen
    rw [withDisplay_some hd, if_neg hopen]
    exact find_modify_self (s := s.close (d.pipeFd w)) hd (by intro d; cases w <;> rfl)

theorem unregisterPipe_find (w : Pipe) : (unregisterPipe w i s).find i = s.find i := by
  unfold unregisterPipe
  cases hd : s.find i with
  | none => rw [withDisplay_none hd, hd]
  | some d => rw [withDisplay_some hd]; exact hd

theorem setCtrl_find (f : CtrlRec → CtrlRec) (hd : s.find i = some d) :
    (setCtrl (some i) f s).find i = some { d with ctrl := f d.ctrl } := find_modify_self hd fun _ => rfl

theorem closeCtrl_find (hd : s.find i = some d) :
    ∃ cr, (closeCtrl (some i) s).find i = some { d with ctrl := cr } := by
  by_cases hlt : d.ctrl.fd < 0
  · rw [closeCtrl_closed (ctrlOf_display hd) hlt]
    exact ⟨d.ctrl, hd⟩
  · unfold Kdm.closeCtrl
    rw [ctrlOf_display hd]
    dsimp only
    rw [if_pos (by omega)]
    have h1 : ((s.unregisterInput d.ctrl.fd).close d.ctrl.fd).find i = some d := hd
    have h2 := setCtrl_find (fun cr => { cr with fd := -1, path := none }) h1
    have hfold (l : List Int) (s : State) :
        (l.foldl (fun s fd => nukeFd fd s) s).find i = s.find i := by
      induction l generalizing s with
      | nil => rfl
      | cons fd l ih => rw [List.foldl_cons, ih]; rfl
    have h3 := (hfold d.ctrl.css _).trans h2
    have h4 := setCtrl_find (fun cr => { cr with css := [] }) h3
    exact ⟨_, h4⟩

theorem closeSession_find (hd : s.find i = some d) :
    ∃ cr, (closeSession i s).find i = some { d with pipe := -1, gpipe := -1, ctrl := cr } := by
  have h1 := gClosen_find (w := .pipe) ((unregisterPipe_find .pipe).trans hd)
  have h2 := gClosen_find (w := .gpipe) ((unregisterPipe_find .gpipe).trans h1)
  exact closeCtrl_find h2

/-! ## Session exits -/

/-- `exitDisplay` starts the display again. -/
def StartsAgain (d : Display) (endState : EndState) (serverCmd : ServerCmd) (s : State) : Prop :=
  d.status ≠ .zombie ∧ s.stopping = false ∧ ¬(s.sdRec.how ≠ 0 ∧ s.sdRec.start = TO_INF) ∧
    endState = .restart ∧ d.displayType.lifetime ≠ .dTransient ∧
    (serverCmd = .retry → d.status ≠ .raiser → exhausted d s.now = false)

/-- A pending exit of a display whose other fields were written to. -/
theorem Pending.unseen {r : Reap} {f : Display → Display} (h : Pending r i v a s)
    (hid : ∀ d, (f d).id = d.id)
    (hf : ∀ d, viewOf (f d) = viewOf d) : Pending r i v a (s.modify i f) :=
  ⟨h.disp, h.ok, (abs_modify_unseen hid hf).trans h.eq⟩

theorem sessionDone_pending (h : Ghost i v a s) (hok : Reap.session.ok v) :
    Pending .session i v a (sessionDone i s) := by
  obtain ⟨d, hd, hv⟩ := h.find
  refine ⟨h.disp, hok, ?_⟩
  unfold sessionDone
  rw [abs_modify hd (by intro; rfl), h.eq, Abs.set_set]
  refine congrArg (fun v => a.set i v) ?_
  show { viewOf d with userSess := -1 } = _
  rw [hv]
  rfl

theorem restartDisplay_steps {c : ServerCmd} (h : Pending .session i v a s)
    (hz : v.status ≠ .zombie) (hr : ∀ st, P (.restart i st) a) :
    Steps P a (abs (restartDisplay i c s)) := by
  obtain ⟨d, hd, hv⟩ := h.find
  have hsp : d.serverPid = v.serverPid := congrArg View.serverPid hv
  have hset (st : DisplayStatus) :
      abs (s.setStatus i st) = a.set i { Reap.session.apply v with status := st } := by
    unfold State.setStatus
    rw [h.modify hd (by intro; rfl), ← hv]
    rfl
  unfold restartDisplay
  rw [withDisplay_some hd]
  split
  · rename_i hc
    exact Path.one _ (hr .phoenix) ⟨v, h.disp, h.ok, hz, .inr ⟨rfl, hsp ▸ hc.1⟩, hset _⟩
  · exact Path.one _ (hr .notRunning) ⟨v, h.disp, h.ok, hz, .inl rfl, hset _⟩

/-- **`exitDisplay`** after the session process of the display was reaped. -/
theorem exitDisplay_steps (hP : Ordinary P) {z : EndState} {c : ServerCmd} {g : Bool}
    (h : Ghost i v a s) (hok : Reap.session.ok v) (hd : s.find i = some d)
    (hr : StartsAgain d z c s → ∀ st, P (.restart i st) a) :
    Steps P a (abs (exitDisplay i z c g s)) := by
  have hv : viewOf d = { v with pid := -1 } := by
    have := abs_disp hd
    rw [h.eq, Abs.set_disp, if_pos rfl] at this
    exact (Option.some.inj this).symm
  have hst : d.status = v.status := congrArg View.status hv
  have hzs : d.zstatus = v.zstatus := congrArg View.zstatus hv
  unfold exitDisplay
  rw [withDisplay_some hd]
  dsimp only
  have h1 : Pending .session i v a ((sessionDone i s).modifyHist d.name fun he =>
      { he with lastExit := (sessionDone i s).now, goodExit := if d.status = .raiser then true else g }) :=
    ⟨h.disp, hok, (sessionDone_pending h hok).eq⟩
  generalize hs1 : (sessionDone i s).modifyHist d.name _ = s1 at h1 ⊢
  have hsd : s1.sdRec = s.sdRec := by rw [← hs1]; rfl
  have hstop : s1.stopping = s.stopping := by rw [← hs1]; rfl
  have hnow : s1.now = s.now := by rw [← hs1]; rfl
  have hstopTo (z : EndState) (hz : v.status ≠ .zombie) {s2 : State} (h2 : Pending .session i v a s2) :
      Steps P a (abs (rStopDisplay i z s2)) :=
    rStopDisplay_steps hP h2 (fun _ hz' => absurd hz' hz) fun hr => nomatch hr
  generalize hz1 : (if s1.sdRec.how ≠ 0 ∧ s1.sdRec.start = TO_INF then EndState.remove else z) = z'
  generalize hc1 : (if d.status = .raiser then ServerCmd.keep else c) = c'
  split
  · refine rStopDisplay_steps hP h1 (fun _ _ => hzs) fun hr => nomatch hr
  · rename_i hz
    have hz' : v.status ≠ .zombie := by rwa [hst] at hz
    split
    · exact hstopTo .remove hz' h1
    · rename_i hstopping
      split
      · exact hstopTo _ hz' h1
      · rename_i hend
        have hlt : d.displayType.lifetime ≠ .dTransient := fun h => hend (.inr h)
        have hres : z' = .restart := by
          by_contra hne
          exact hend (.inl hne)
        rw [hsd, hres] at hz1
        have hhow : ¬(s.sdRec.how ≠ 0 ∧ s.sdRec.start = TO_INF) := by
          intro hc
          rw [if_pos hc] at hz1
          cases hz1
        rw [if_neg hhow] at hz1
        have hgo (hx : c = .retry → d.status ≠ .raiser → exhausted d s.now = false) :
            ∀ st, P (.restart i st) a :=
          hr ⟨hz, by rw [← hstop]; simpa using hstopping, hhow, hz1, hlt, hx⟩
        have h2 : Pending .session i v a
            (if d.isLocal then s1 else s1.modify i fun d => { d with startTries := d.startTries + 1 }) := by
          split
          · exact h1
          · exact h1.unseen (fun _ => rfl) fun _ => rfl
        split
        · split
          · exact hstopTo .remove hz' h2
          · rename_i hx
            rw [hnow] at hx
            exact restartDisplay_steps h2 hz' (hgo fun _ _ => by simpa using hx)
        · rename_i hc
          refine restartDisplay_steps (h1.unseen (fun _ => rfl) fun _ => rfl) hz' (hgo fun hc' hr => ?_)
          rw [if_neg hr] at hc1
          exact absurd (hc1.symm.trans hc') hc

/-- Closing a session touches the display list and the descriptors only. -/
theorem closeSession_frame (i : Id) (s : State) : ∃ ds fds mask,
    closeSession i s = { s with displays := ds, fds := fds, wellKnownSocketsMask := mask } := by
  have hun (w : Pipe) (s : State) : ∃ mask,
      unregisterPipe w i s = { s with wellKnownSocketsMask := mask } := by
    unfold unregisterPipe
    cases hd : s.find i with
    | none => exact ⟨_, withDisplay_none hd⟩
    | some d => exact ⟨_, withDisplay_some hd⟩
  have hcl (w : Pipe) (s : State) : ∃ ds fds,
      gClosen w i s = { s with displays := ds, fds := fds } := by
    unfold gClosen
    cases hd : s.find i with
    | none => exact ⟨_, _, withDisplay_none hd⟩
    | some d =>
      rw [withDisplay_some hd]
      split
      · exact ⟨_, _, rfl⟩
      · exact ⟨_, _, rfl⟩
  have hfold (l : List Int) (s : State) : ∃ fds mask,
      l.foldl (fun s fd => nukeFd fd s) s = { s with fds := fds, wellKnownSocketsMask := mask } := by
    induction l generalizing s with
    | nil => exact ⟨_, _, rfl⟩
    | cons fd l ih =>
      obtain ⟨fds, mask, h⟩ := ih (nukeFd fd s)
      exact ⟨fds, mask, h⟩
  have hctrl (s : State) : ∃ ds fds mask,
      closeCtrl (some i) s = { s with displays := ds, fds := fds, wellKnownSocketsMask := mask } := by
    unfold Kdm.closeCtrl
    split
    · exact ⟨_, _, _, rfl⟩
    · rename_i cr _
      split
      · obtain ⟨fds, mask, h⟩ := hfold cr.css
          (setCtrl (some i) (fun cr => { cr with fd := -1, path := none })
            ((s.unregisterInput cr.fd).close cr.fd))
        dsimp only
        rw [h]
        exact ⟨_, _, _, rfl⟩
      · exact ⟨_, _, _, rfl⟩
  obtain ⟨m1, h1⟩ := hun .pipe s
  obtain ⟨ds2, fds2, h2⟩ := hcl .pipe (unregisterPipe .pipe i s)
  obtain ⟨m3, h3⟩ := hun .gpipe (gClosen .pipe i (unregisterPipe .pipe i s))
  obtain ⟨ds4, fds4, h4⟩ := hcl .gpipe (unregisterPipe .gpipe i (gClosen .pipe i (unregisterPipe .pipe i s)))
  obtain ⟨ds5, fds5, m5, h5⟩ := hctrl
    (gClosen .gpipe i (unregisterPipe .gpipe i (gClosen .pipe i (unregisterPipe .pipe i s))))
  refine ⟨ds5, fds5, m5, ?_⟩
  unfold closeSession
  dsimp only
  rw [h5, h4, h3, h2, h1]

/-- **`reapChildren` for a session process.** -/
theorem reapSession_steps (hP : Ordinary P) {status : WaitStatus} (hd : s.find i = some d)
    (hpid : d.pid ≠ -1)
    (hr : StartsAgain d (exitArgs d (wcFromWait status)).1 (exitArgs d (wcFromWait status)).2.1 s →
      ∀ st b, b.slot = s.startingServer → P (.restart i st) b) :
    Steps P (abs s) (abs (reapSession i status s)) := by
  have hd1 : (s.setPid i (-1)).find i = some { d with pid := -1 } := find_modify_self hd fun _ => rfl
  have hg : Ghost i (viewOf d) (abs s) (s.setPid i (-1)) := ⟨abs_disp hd, abs_setPid hd (-1)⟩
  obtain ⟨a', v', h1, hg', hok, c, css, rfl⟩ := closeSession_steps hP hg hpid
  obtain ⟨cr, hd2⟩ := closeSession_find hd1
  obtain ⟨ds, fds, mask, hs2⟩ := closeSession_frame i (s.setPid i (-1))
  unfold reapSession
  dsimp only
  rw [withDisplay_some hd2]
  refine h1.trans (exitDisplay_steps hP hg' hok hd2 fun hagain st => ?_)
  rw [hs2] at hagain
  refine hr hagain st a' ?_
  have : (closeSession i (s.setPid i (-1))).startingServer = a'.slot := congrArg Abs.slot hg'.eq
  rw [← this, hs2]
  rfl

/-! ## Server exits -/

theorem abs_releaseVT (i : Id) (s : State) : abs (releaseVT i s) = abs s := by
  unfold releaseVT
  cases hd : s.find i with
  | none => rw [withDisplay_none hd]
  | some d =>
    rw [withDisplay_some hd]
    split
    · dsimp only
      split
      · rw [abs_modify_unseen (by intro; rfl) (by intro; rfl), abs_modify_unseen (by intro; rfl) (by intro; rfl), abs_modify_unseen (by intro; rfl) (by intro; rfl)]
      · rw [abs_modify_unseen (by intro; rfl) (by intro; rfl)]
    · rfl

/-- **`reapChildren` for an X server.** -/
theorem reapServer_steps (hP : Ordinary P) (hT : Timed P) (hd : s.find i = some d)
    (hsp : d.serverPid ≠ -1) : Steps P (abs s) (abs (reapServer i s)) := by
  have hd1 : (s.setServerPid i (-1)).find i = some { d with serverPid := -1 } := find_modify_self hd fun _ => rfl
  have ha1 := abs_setServerPid hd (-1)
  unfold reapServer
  dsimp only
  have hslot1 : (s.setServerPid i (-1)).startingServer = s.startingServer := rfl
  generalize s.setServerPid i (-1) = s1 at hd1 ha1 hslot1 ⊢
  rw [withDisplay_some hd1]
  dsimp only
  have hv := abs_disp hd
  have hexit (st : DisplayStatus) (h : exitsTo d.status st) :
      Steps P (abs s) (abs (s1.setStatus i st)) := by
    refine Path.one (.serverExit i st) (hP _ _ rfl) ⟨viewOf d, hv, hsp, h, ?_⟩
    rw [abs_setStatus hd1, ha1, Abs.set_set]
    rfl
  have hstay (h : exitsTo d.status d.status) : Steps P (abs s) (abs s1) := by
    refine Path.one (.serverExit i d.status) (hP _ _ rfl) ⟨viewOf d, hv, hsp, h, ?_⟩
    rw [ha1]
    rfl
  have hpassive (hst : d.status ≠ .phoenix ∧ d.status ≠ .remoteLogin ∧ d.status ≠ .zombie) :
      Steps P (abs s) (abs (s1.log (.passiveServerExit i d.status))) := by
    let c : Call := .passiveServerExit i d.status
    refine Runs.Path.trans (Path.one (.call c) (hP _ _ rfl) ⟨⟨viewOf d, hv, rfl, hsp⟩, rfl⟩)
      (Path.one (.serverExit i d.status) (hP _ _ rfl) ⟨viewOf d, hv, hsp, ?_, ?_⟩)
    · show exitsTo d.status d.status
      cases hs : d.status <;> simp_all [exitsTo]
    · show { abs s1 with calls := c :: (abs s1).calls } = _
      rw [ha1]
      rfl
  cases hst : d.status with
  | zombie =>
    have h2 : Pending .server i (viewOf d) (abs s) (releaseVT i s1) :=
      ⟨hv, hsp, (abs_releaseVT i s1).trans ha1⟩
    exact rStopDisplay_steps hP h2 (fun _ _ => rfl) fun hr => nomatch hr
  | phoenix => exact hexit .notRunning (by rw [hst]; rfl)
  | remoteLogin =>
    refine hexit _ ?_
    rw [hst]
    split
    · exact .inl rfl
    · exact .inr rfl
  | raiser => exact hstay (by rw [hst]; rfl)
  | running =>
    dsimp only
    have h1 := hstay (by rw [hst]; rfl)
    split
    · rename_i hc
      refine h1.trans (startServerFailed_steps hP hT false d.serverStatus
        (v := viewOf { d with serverPid := -1 }) (t := (abs s1).timer) (abs_disp hd1) ⟨hc.1, hc.2⟩ ?_)
      have hself := Abs.set_eq_self (abs_disp hd1)
      refine hself.symm.trans ?_
      have hslot : (abs s1).slot = some i := hc.1
      rw [← hslot]
      rfl
    · exact h1
  | notRunning | textMode | reserve =>
    have h1 := hpassive (by rw [hst]; decide)
    rw [hst] at h1
    exact h1

/-- **One turn of the `waitpid` loop.** -/
theorem reapChild_steps (hP : Ordinary P) (hT : Timed P) (hk : Keys (abs s)) {pid : Int}
    (hpid : 0 < pid) {status : WaitStatus}
    (hr : ∀ d, findDisplayByPid s pid = some d →
      StartsAgain d (exitArgs d (wcFromWait status)).1 (exitArgs d (wcFromWait status)).2.1 s →
        ∀ st b, b.slot = s.startingServer → P (.restart d.id st) b) :
    Steps P (abs s) (abs (reapChild pid status s)) := by
  unfold reapChild
  split
  · rename_i d hf
    have hd := find_of_mem hk (Keyed.mem_of_get hf)
    have hp : d.pid = pid := Keyed.key_of_get hf
    exact reapSession_steps hP hd (by omega) (hr d hf)
  · split
    · rename_i d hf
      have hd := find_of_mem hk (Keyed.mem_of_get hf)
      have hp : d.serverPid = pid := Keyed.key_of_get hf
      exact reapServer_steps hP hT hd (by omega)
    · exact Path.nil _

end Kdm
