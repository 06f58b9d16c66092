import Kdm.Refine.Reach

/-!
# Zombies that stay survive the exits

A zombie is kept in the list until its processes are reaped, and what happens then was decided
when it became one.  `reapChild` takes one exit; it leaves every other zombie alone
(`SparesZombies`), and the zombie whose process it was is still in the list afterwards, unless
it is to be removed.

Principal result: `reapChild_stays`.
-/

namespace Kdm

variable {s s' s'' : State} {i j : Id} {d : Display} {n : String} {J : Id → Prop}

/-- The display will still be in the list when its processes are gone. -/
def Display.stays (d : Display) : Prop :=
  d.status = .zombie → d.zstatus ≠ .remove ∧ d.zstatus ≠ .restart

instance (d : Display) : Decidable d.stays := by unfold Display.stays; infer_instance

theorem Display.stays_of_status (h : d.status ≠ .zombie) : d.stays := fun hz => absurd hz h

/-- The same name, and the same fate if it is a zombie. -/
structure SameFate (d d' : Display) : Prop where
  name : d'.name = d.name
  zombie : d'.status = .zombie ↔ d.status = .zombie
  zstatus : d'.zstatus = d.zstatus

theorem SameFate.refl (d : Display) : SameFate d d := ⟨rfl, .rfl, rfl⟩

theorem SameFate.trans {d d' d'' : Display} (h : SameFate d d') (h' : SameFate d' d'') :
    SameFate d d'' :=
  ⟨h'.name.trans h.name, h'.zombie.trans h.zombie, h'.zstatus.trans h.zstatus⟩

theorem SameFate.stays {d' : Display} (h : SameFate d d') (hd : d.stays) : d'.stays := by
  intro hz
  rw [h.zstatus]
  exact hd (h.zombie.mp hz)

/-! ## Frames -/

/-- The displays in `J` are found again, with the same fate. -/
def SparesZombies (J : Id → Prop) (s s' : State) : Prop :=
  ∀ j d, J j → s.find j = some d → ∃ d', s'.find j = some d' ∧ SameFate d d'

/-- The displays other than `i` are found again, with the same fate. -/
abbrev SparesOthers (i : Id) : State → State → Prop := SparesZombies fun j => j ≠ i

namespace SparesZombies

theorem trans (h : SparesZombies J s s') (h' : SparesZombies J s' s'') : SparesZombies J s s'' := by
  intro j d hj hd
  obtain ⟨d', hd', hf⟩ := h j d hj hd
  obtain ⟨d'', hd'', hf'⟩ := h' j d' hj hd'
  exact ⟨d'', hd'', hf.trans hf'⟩

/-- Writes to other parts of the state. -/
theorem of_displays (h : s'.displays = s.displays) : SparesZombies J s s' := by
  intro j d _ hd
  refine ⟨d, ?_, .refl d⟩
  unfold State.find
  rw [h]
  exact hd

theorem refl (s : State) : SparesZombies J s s := of_displays rfl

theorem after (h : SparesZombies J s s') (he : s''.displays = s'.displays) : SparesZombies J s s'' :=
  h.trans (of_displays he)

theorem before (h : SparesZombies J s' s'') (he : s'.displays = s.displays) : SparesZombies J s s'' :=
  (of_displays he).trans h

/-- A write to a display that keeps its fate. -/
theorem modify {f : Display → Display} (hf : ∀ d, SameFate d (f d))
    (hid : ∀ d, (f d).id = d.id) : SparesZombies J s (s.modify i f) := by
  intro j d _ hd
  rw [State.find_modify hid]
  split
  · rename_i hj
    subst hj
    exact ⟨f d, by rw [hd]; rfl, hf d⟩
  · exact ⟨d, hd, .refl d⟩

/-- A write to a display outside `J`. -/
theorem modify_other {f : Display → Display} (hi : ¬ J i)
    (hid : ∀ d, (f d).id = d.id) : SparesZombies J s (s.modify i f) := by
  intro j d hj hd
  have hji : j ≠ i := by rintro rfl; exact hi hj
  refine ⟨d, ?_, .refl d⟩
  rw [State.find_modify hid, if_neg hji]
  exact hd

theorem remove_other (hi : ¬ J i) : SparesZombies J s (removeDisplay i s) := by
  intro j d hj hd
  have hji : j ≠ i := by rintro rfl; exact hi hj
  have hfind : (removeDisplay i s).find j = if j = i then none else s.find j := Keyed.get_erase
  refine ⟨d, ?_, .refl d⟩
  rw [hfind, if_neg hji]
  exact hd

theorem withDisplay {g : Display → State → State}
    (h : ∀ d, s.find i = some d → SparesZombies J s (g d s)) :
    SparesZombies J s (s.withDisplay i g) := by
  cases hd : s.find i with
  | none => rw [withDisplay_none hd]; exact refl s
  | some d => rw [withDisplay_some hd]; exact h d hd

theorem foldl {α : Type} {g : α → State → State} (h : ∀ a s, SparesZombies J s (g a s)) (l : List α)
    (s : State) : SparesZombies J s (l.foldl (fun s a => g a s) s) := by
  induction l generalizing s with
  | nil => exact refl s
  | cons a l ih => exact (h a s).trans (ih (g a s))

end SparesZombies

open SparesZombies

/-! ## Console mode -/

theorem wakeDisplay_spares (i : Id) (s : State) : SparesZombies J s (wakeDisplay i s) := by
  unfold wakeDisplay
  refine withDisplay fun d hd => ?_
  split
  · rename_i htext
    intro j d' _ hd'
    unfold State.setStatus
    rw [State.find_modify (by intro; rfl)]
    split
    · rename_i hj
      subst hj
      cases hd.symm.trans hd'
      rw [hd]
      refine ⟨_, rfl, rfl, ?_, rfl⟩
      rw [htext]
      dsimp only
      split <;> decide
    · exact ⟨d', hd', .refl d'⟩
  · exact refl s

theorem wakeDisplays_spares (s : State) : SparesZombies J s (wakeDisplays s) := by
  have h := foldl (J := J) wakeDisplay_spares (s.displays.map Display.id) s
  exact h.after rfl

theorem pollUtmp_spares (utp : Utmps) (s : State) : SparesZombies J s (pollUtmp utp s) := by
  unfold pollUtmp
  split
  · dsimp only
    generalize (if utp.state = .dead then { utp with time := 0 } else utp) = utp'
    generalize (utp'.time + if utp'.hadSess = true then TIME_RELOG else TIME_LOG) = ends
    split
    · exact wakeDisplays_spares s
    · exact of_displays rfl
  · exact of_displays rfl

theorem checkUtmp_spares (s : State) : SparesZombies J s (checkUtmp s) := by
  unfold checkUtmp
  split
  · exact refl s
  · split
    · exact wakeDisplays_spares s
    · split
      · exact before (pollUtmp_spares _ _) rfl
      · exact pollUtmp_spares _ s

theorem switchToTTY_spares (s : State) : SparesZombies J s (switchToTTY s) := by
  obtain ⟨env, he⟩ := malloc_env s
  unfold switchToTTY
  rcases hm : s.malloc with ⟨ok, s1⟩
  rw [hm] at he
  have h1 : SparesZombies J s s1 := of_displays (by rw [show s1 = _ from he])
  dsimp only
  split
  · obtain ⟨env', he'⟩ := answer_env s1
    rcases ha : s1.answer with ⟨x, s2⟩
    rw [ha] at he'
    have h2 : SparesZombies J s1 s2 := of_displays (by rw [show s2 = _ from he'])
    exact (h1.trans h2).trans (before (checkUtmp_spares _) rfl)
  · exact h1.trans (wakeDisplays_spares s1)

theorem checkTTYMode_spares (s : State) : SparesZombies J s (checkTTYMode s) := by
  unfold checkTTYMode
  split
  · exact refl s
  · exact switchToTTY_spares s

/-! ## Stopping a display -/

theorem abortStartServer_spares (i : Id) (s : State) : SparesZombies J s (abortStartServer i s) := by
  unfold abortStartServer
  split
  · refine after (withDisplay fun d _ => ?_) rfl
    split
    · have hset : SparesZombies J s (s.setServerStatus i .ignore) := modify (fun _ => ⟨rfl, .rfl, rfl⟩) fun _ => rfl
      exact hset.after rfl
    · exact refl s
  · exact refl s

theorem setStatus_spares (i : Id) (st : DisplayStatus) (s : State) :
    SparesOthers i s (s.setStatus i st) :=
  modify_other (fun h => h rfl) fun _ => rfl

theorem fork_spares (s : State) : SparesZombies J s s.fork.2 := by
  obtain ⟨env, he⟩ := fork_env s
  exact of_displays (by rw [he])

theorem setServerPid_spares (i : Id) (pid : Int) (s : State) :
    SparesZombies J s (s.setServerPid i pid) :=
  modify (fun _ => ⟨rfl, .rfl, rfl⟩) fun _ => rfl

theorem startRemoteLogin_spares (i : Id) (s : State) : SparesOthers i s (startRemoteLogin i s) := by
  have hf : SparesOthers i s s.fork.2 := fork_spares s
  unfold startRemoteLogin
  rcases hs : s.fork with ⟨pid, s1⟩
  rw [hs] at hf
  have h : SparesOthers i s (s1.setServerPid i pid) := hf.trans (setServerPid_spares i pid s1)
  dsimp only
  split
  · exact h.trans (setStatus_spares i _ _)
  · exact h.trans (setStatus_spares i _ _)

theorem stopTo_spares (i : Id) (z : EndState) (s : State) : SparesOthers i s (stopTo i z s) := by
  unfold stopTo
  refine withDisplay fun d _ => ?_
  split
  · exact modify_other (fun h => h rfl) fun _ => rfl
  · split
    · exact (setStatus_spares i _ s).trans (checkTTYMode_spares _)
    · exact setStatus_spares i _ s
    · exact (setStatus_spares i _ s).trans (of_displays rfl)
    · exact startRemoteLogin_spares i s
    · exact remove_other fun h => h rfl
    · exact remove_other fun h => h rfl

theorem rStopDisplay_spares (i : Id) (z : EndState) (s : State) :
    SparesOthers i s (rStopDisplay i z s) :=
  (abortStartServer_spares i s).trans (stopTo_spares i z _)

theorem stopDisplay_spares (i : Id) (s : State) : SparesOthers i s (stopDisplay i s) :=
  rStopDisplay_spares i .remove s

theorem startServerFailed_spares (h : s.startingServer = some i) :
    SparesOthers i s (startServerFailed s) := by
  unfold startServerFailed
  rw [h]
  refine withDisplay fun d _ => ?_
  have hset (st : ServerStatus) : SparesOthers i s (s.setServerStatus i st) :=
    modify (fun _ => ⟨rfl, .rfl, rfl⟩) fun _ => rfl
  split
  · exact (hset .pausing).after rfl
  · exact (hset .ignore).trans (before (stopDisplay_spares i _) rfl)

/-! ## The end of a session -/

theorem setCtrl_spares (x : Option Id) (f : CtrlRec → CtrlRec) (s : State) :
    SparesZombies J s (setCtrl x f s) := by
  cases x with
  | none => exact of_displays rfl
  | some i => exact modify (fun _ => ⟨rfl, .rfl, rfl⟩) fun _ => rfl

theorem closeCtrl_spares (x : Option Id) (s : State) : SparesZombies J s (closeCtrl x s) := by
  unfold closeCtrl
  split
  · exact refl s
  · rename_i cr _
    split
    · have hnuke (s : State) : SparesZombies J s (cr.css.foldl (fun s fd => nukeFd fd s) s) :=
        foldl (g := nukeFd) (fun fd s => of_displays rfl) cr.css s
      refine trans ?_ (setCtrl_spares x _ _)
      refine trans ?_ (hnuke _)
      exact before (setCtrl_spares x _ _) rfl
    · exact refl s

theorem gClosen_spares (w : Pipe) (i : Id) (s : State) : SparesZombies J s (gClosen w i s) := by
  unfold gClosen
  refine withDisplay fun d _ => ?_
  split
  · exact refl s
  · have hclose : SparesZombies J s (s.close (d.pipeFd w)) := of_displays rfl
    refine hclose.trans (modify ?_ ?_)
    · intro d; cases w <;> exact ⟨rfl, .rfl, rfl⟩
    · intro d; cases w <;> rfl

theorem unregisterPipe_spares (w : Pipe) (i : Id) (s : State) :
    SparesZombies J s (unregisterPipe w i s) := by
  unfold unregisterPipe
  exact withDisplay fun _ _ => of_displays rfl

theorem closeSession_spares (i : Id) (s : State) : SparesZombies J s (closeSession i s) := by
  have hpipe (w : Pipe) (s : State) : SparesZombies J s (gClosen w i (unregisterPipe w i s)) :=
    (unregisterPipe_spares w i s).trans (gClosen_spares w i _)
  exact ((hpipe .pipe s).trans (hpipe .gpipe _)).trans (closeCtrl_spares (some i) _)

theorem sessionDone_spares (i : Id) (s : State) : SparesZombies J s (sessionDone i s) :=
  modify (fun _ => ⟨rfl, .rfl, rfl⟩) fun _ => rfl

theorem restartDisplay_spares (i : Id) (cmd : ServerCmd) (s : State) :
    SparesOthers i s (restartDisplay i cmd s) := by
  unfold restartDisplay
  refine withDisplay fun d _ => ?_
  split
  · exact setStatus_spares i _ s
  · exact setStatus_spares i _ s

theorem exitDisplay_spares (i : Id) (z : EndState) (cmd : ServerCmd) (good : Bool) (s : State) :
    SparesOthers i s (exitDisplay i z cmd good s) := by
  unfold exitDisplay
  refine withDisplay fun d _ => ?_
  dsimp only
  generalize (if d.status = .raiser then ServerCmd.keep else cmd) = cmd
  generalize (if d.status = .raiser then true else good) = good
  have hdone : SparesOthers i s ((sessionDone i s).modifyHist d.name fun he =>
      { he with lastExit := (sessionDone i s).now, goodExit := good }) :=
    (sessionDone_spares i s).trans (of_displays rfl)
  refine hdone.trans ?_
  generalize ((sessionDone i s).modifyHist d.name _) = s1
  generalize (if s1.sdRec.how ≠ 0 ∧ s1.sdRec.start = TO_INF then EndState.remove else z) = z
  have htry : SparesOthers i s1
      (if d.isLocal then s1 else s1.modify i fun d => { d with startTries := d.startTries + 1 }) := by
    split
    · exact refl s1
    · exact modify_other (fun h => h rfl) fun _ => rfl
  split
  · exact rStopDisplay_spares i _ s1
  · split
    · exact stopDisplay_spares i s1
    · split
      · exact rStopDisplay_spares i z s1
      · split
        · split
          · exact htry.trans (stopDisplay_spares i _)
          · exact htry.trans (restartDisplay_spares i _ _)
        · have hreset : SparesOthers i s1 (s1.modify i fun d => { d with startTries := 0 }) :=
            modify_other (fun h => h rfl) fun _ => rfl
          exact hreset.trans (restartDisplay_spares i _ _)

theorem setPid_spares (i : Id) (pid : Int) (s : State) : SparesZombies J s (s.setPid i pid) :=
  modify (fun _ => ⟨rfl, .rfl, rfl⟩) fun _ => rfl

theorem reapSession_spares (i : Id) (status : WaitStatus) (s : State) :
    SparesOthers i s (reapSession i status s) := by
  have hclose : SparesOthers i s (closeSession i (s.setPid i (-1))) :=
    (setPid_spares i (-1) s).trans (closeSession_spares i _)
  unfold reapSession
  exact hclose.trans (withDisplay fun d _ => exitDisplay_spares i _ _ _ _)

/-! ## The end of a server -/

theorem releaseVT_spares (i : Id) (s : State) : SparesZombies J s (releaseVT i s) := by
  unfold releaseVT
  refine withDisplay fun d _ => ?_
  split
  · dsimp only
    have hset {s : State} (hand : State) (h : SparesZombies J s hand) :
        SparesZombies J s (hand.modify i fun d => { d with serverVT := 0 }) :=
      h.trans (modify (fun _ => ⟨rfl, .rfl, rfl⟩) fun _ => rfl)
    refine hset _ ?_
    split
    · rename_i f _
      have hgive : SparesZombies J s (s.modify f fun fd => { fd with serverVT := d.serverVT }) :=
        modify (fun _ => ⟨rfl, .rfl, rfl⟩) fun _ => rfl
      exact hgive.trans (modify (fun _ => ⟨rfl, .rfl, rfl⟩) fun _ => rfl)
    · exact refl s
  · exact refl s

theorem reapServer_spares (i : Id) (s : State) : SparesOthers i s (reapServer i s) := by
  unfold reapServer
  refine (setServerPid_spares i (-1) s).trans ?_
  generalize s.setServerPid i (-1) = s1
  refine withDisplay fun d _ => ?_
  split
  · exact (releaseVT_spares i s1).trans (rStopDisplay_spares i _ _)
  · exact setStatus_spares i _ s1
  · exact setStatus_spares i _ s1
  · exact refl s1
  · split
    · rename_i h
      exact startServerFailed_spares h.1
    · exact refl s1
  all_goals exact of_displays rfl

/-! ## The zombie itself -/

/-- A display of the name is in the list, and stays there when its processes are gone. -/
def Stays (n : String) (s : State) : Prop := ∃ d ∈ s.displays, d.name = n ∧ d.stays

theorem Stays.of_find (hd : s.find i = some d) (hst : d.stays) : Stays d.name s :=
  ⟨d, State.find_mem hd, rfl, hst⟩

theorem Stays.of_fate {d' : Display} (h : s.find i = some d') (hf : SameFate d d') (hst : d.stays) :
    Stays d.name s := by
  rw [← hf.name]
  exact .of_find h (hf.stays hst)

theorem stays_setStatus {st : DisplayStatus} (hd : s.find i = some d) (hst : st ≠ .zombie) :
    Stays d.name (s.setStatus i st) :=
  .of_find (d := { d with status := st }) (find_modify_self hd (fun _ => rfl)) (Display.stays_of_status hst)

theorem startRemoteLogin_stays (hd : s.find i = some d) : Stays d.name (startRemoteLogin i s) := by
  unfold startRemoteLogin
  rcases hs : s.fork with ⟨pid, s1⟩
  have hd1 : s1.find i = some d := (find_of_fork hs).trans hd
  have hd2 : (s1.setServerPid i pid).find i = some { d with serverPid := pid } := find_modify_self hd1 fun _ => rfl
  dsimp only
  split
  · exact stays_setStatus (d := { d with serverPid := pid }) hd2 (by decide)
  · exact stays_setStatus (d := { d with serverPid := pid }) hd2 (by decide)

/-- A stop that does not ask for removal keeps the display. -/
theorem rStopDisplay_stays {z : EndState} (hd : s.find i = some d) (hz : z ≠ .remove)
    (hz' : z ≠ .restart) : Stays d.name (rStopDisplay i z s) := by
  obtain ⟨d1, hd1, hf⟩ := abortStartServer_spares (J := fun _ => True) i s i d trivial hd
  rw [← hf.name]
  unfold rStopDisplay stopTo
  rw [withDisplay_some hd1]
  split
  · refine .of_find (d := { d1 with status := .zombie, zstatus := z.mask }) (find_modify_self hd1 (fun _ => rfl)) ?_
    intro _
    cases z with
    | textMode => exact ⟨EndState.noConfusion, EndState.noConfusion⟩
    | _ => exact ⟨hz, hz'⟩
  · split
    · have htext : ((abortStartServer i s).setStatus i .textMode).find i =
          some { d1 with status := .textMode } := find_modify_self hd1 fun _ => rfl
      obtain ⟨d2, hd2, hf2⟩ := checkTTYMode_spares (J := fun _ => True) _ i _ trivial htext
      exact .of_fate (d := { d1 with status := .textMode }) hd2 hf2
        (Display.stays_of_status DisplayStatus.noConfusion)
    · exact stays_setStatus hd1 (by decide)
    · exact stays_setStatus hd1 (by decide)
    · exact startRemoteLogin_stays hd1
    · contradiction
    · contradiction

theorem exitDisplay_stays {z : EndState} {cmd : ServerCmd} {good : Bool} (hd : s.find i = some d)
    (hz : d.status = .zombie) (hst : d.stays) : Stays d.name (exitDisplay i z cmd good s) := by
  obtain ⟨d1, hd1, hf⟩ := sessionDone_spares (J := fun _ => True) i s i d trivial hd
  rw [← hf.name]
  unfold exitDisplay
  rw [withDisplay_some hd]
  dsimp only
  rw [if_pos hz, ← hf.zstatus]
  have hstays := hf.stays hst (hf.zombie.mpr hz)
  exact rStopDisplay_stays hd1 hstays.1 hstays.2

theorem reapSession_stays {status : WaitStatus} (hd : s.find i = some d) (hz : d.status = .zombie)
    (hst : d.stays) : Stays d.name (reapSession i status s) := by
  have hclose : SparesZombies (fun _ => True) s (closeSession i (s.setPid i (-1))) :=
    (setPid_spares i (-1) s).trans (closeSession_spares i _)
  obtain ⟨d1, hd1, hf⟩ := hclose i d trivial hd
  rw [← hf.name]
  unfold reapSession
  dsimp only
  rw [withDisplay_some hd1]
  exact exitDisplay_stays hd1 (hf.zombie.mpr hz) (hf.stays hst)

theorem reapServer_stays (hd : s.find i = some d) (hz : d.status = .zombie) (hst : d.stays) :
    Stays d.name (reapServer i s) := by
  obtain ⟨d1, hd1, hf⟩ := setServerPid_spares (J := fun _ => True) i (-1) s i d trivial hd
  obtain ⟨d2, hd2, hf2⟩ := releaseVT_spares (J := fun _ => True) i _ i d1 trivial hd1
  rw [← hf.name, ← hf2.name]
  unfold reapServer
  dsimp only
  rw [withDisplay_some hd1, hf.zombie.mpr hz]
  have hstays := hf.stays hst (hf.zombie.mpr hz)
  exact rStopDisplay_stays hd2 hstays.1 hstays.2

/-- **A zombie that is to stay in the list is still there after any exit.** -/
theorem reapChild_stays {pid : Int} {status : WaitStatus} (hk : Keys (abs s)) (hd : d ∈ s.displays)
    (hz : d.status = .zombie) (hst : d.stays) : Stays d.name (reapChild pid status s) := by
  have hfind := find_of_mem hk hd
  have hother {k : Id} {s' : State} (hk : d.id ≠ k) (h : SparesOthers k s s') : Stays d.name s' := by
    obtain ⟨d', hd', hf⟩ := h d.id d hk hfind
    exact .of_fate hd' hf hst
  unfold reapChild
  split
  · rename_i di _
    by_cases hi : d.id = di.id
    · rw [← hi]
      exact reapSession_stays hfind hz hst
    · exact hother hi (reapSession_spares di.id status s)
  · split
    · rename_i di _
      by_cases hi : d.id = di.id
      · rw [← hi]
        exact reapServer_stays hfind hz hst
      · exact hother hi (reapServer_spares di.id s)
    · exact ⟨d, hd, rfl, hst⟩

end Kdm
