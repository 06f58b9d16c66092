import Kdm.Refine.Abs

/-!
# Console mode and stops refine the model

`rStopDisplay` is called for a display whose process was just reaped as well as for one that
nothing happened to.  `Pending r i v a s` covers both: in the model the exit has not happened
yet (`a`), in the code it has been noted (`s`), and the stop performs both at once.
-/

namespace Kdm

open Runs

variable {P : Act → Abs → Prop} {s : State} {a : Abs} {i : Id} {d : Display} {v : View}
  {r : Reap} {z : EndState}

/-! ## Console mode -/

theorem wakeDisplay_steps (hP : Ordinary P) (i : Id) (s : State) :
    Steps P (abs s) (abs (wakeDisplay i s)) := by
  unfold wakeDisplay
  cases hd : s.find i with
  | none => rw [withDisplay_none hd]; exact Path.nil _
  | some d =>
    rw [withDisplay_some hd]
    split
    · rename_i hst
      refine Path.one (.wake i _) (hP _ _ rfl) ⟨viewOf d, abs_disp hd, hst, ?_,
        abs_modify hd fun _ => rfl⟩
      split <;> simp
    · exact Path.nil _

theorem wakeDisplays_steps (hP : Ordinary P) (s : State) :
    Steps P (abs s) (abs (wakeDisplays s)) :=
  (forEachDisplay_steps (Q := fun _ => True)
    (fun i s _ => ⟨wakeDisplay_steps hP i s, trivial⟩) trivial).1

theorem pollUtmp_steps (hP : Ordinary P) (utp : Utmps) (s : State) :
    Steps P (abs s) (abs (pollUtmp utp s)) := by
  unfold pollUtmp
  dsimp only
  split_ifs
  all_goals first | exact wakeDisplays_steps hP s | exact Path.nil _

theorem checkUtmp_steps (hP : Ordinary P) (s : State) : Steps P (abs s) (abs (checkUtmp s)) := by
  unfold checkUtmp
  split
  · exact Path.nil _
  · split
    · exact wakeDisplays_steps hP s
    · split
      · rename_i mtime entries _ _
        exact pollUtmp_steps hP _ { s with modtim := mtime }
      · exact pollUtmp_steps hP _ s

theorem switchToTTY_steps (hP : Ordinary P) (s : State) :
    Steps P (abs s) (abs (switchToTTY s)) := by
  unfold switchToTTY
  rcases hm : s.malloc with ⟨ok, s1⟩
  have h1 : abs s1 = abs s := abs_of_malloc hm
  dsimp only
  split
  · rcases ha : s1.answer with ⟨x, s2⟩
    have h2 : abs s2 = abs s1 := abs_of_answer ha
    rw [← h1, ← h2]
    exact checkUtmp_steps hP { s2 with utmpList := some ⟨s2.now, staleUtState x, false⟩ }
  · rw [← h1]
    exact wakeDisplays_steps hP s1

theorem checkTTYMode_steps (hP : Ordinary P) (s : State) :
    Steps P (abs s) (abs (checkTTYMode s)) := by
  unfold checkTTYMode
  split
  · exact Path.nil _
  · exact switchToTTY_steps hP s

/-! ## Stops -/

/-- The code has noted the exit `r` of display `i`, the model has not. -/
structure Pending (r : Reap) (i : Id) (v : View) (a : Abs) (s : State) : Prop where
  disp : a.disp i = some v
  ok : r.ok v
  eq : abs s = a.set i (r.apply v)

theorem Pending.none (hd : s.find i = some d) : Pending .none i (viewOf d) (abs s) s :=
  ⟨abs_disp hd, trivial, (Abs.set_eq_self (abs_disp hd)).symm⟩

theorem Pending.slot (h : Pending r i v a s) : s.startingServer = a.slot :=
  congrArg Abs.slot h.eq

/-- The display of a pending exit. -/
theorem Pending.find (h : Pending r i v a s) : ∃ d, s.find i = some d ∧ viewOf d = r.apply v := by
  have hd : (abs s).disp i = some (r.apply v) := by rw [h.eq]; simp
  obtain ⟨d, hd, hv⟩ := find_of_disp hd
  exact ⟨d, hd, hv.symm⟩

/-- A write to the display of a pending exit. -/
theorem Pending.modify {f : Display → Display} (h : Pending r i v a s)
    (hd : s.find i = some d) (hid : ∀ d, (f d).id = d.id) :
    abs (s.modify i f) = a.set i (viewOf (f d)) := by
  rw [abs_modify hd hid, h.eq, Abs.set_set]

theorem Reap.ok_ignore (h : r.ok v) : r.ok { v with serverStatus := .ignore } := by
  cases r <;> exact h

theorem Reap.apply_ignore :
    r.apply { v with serverStatus := .ignore } = { r.apply v with serverStatus := .ignore } := by
  cases r <;> rfl

/-- `abortStartServer` lets go of the slot. -/
theorem abortStartServer_steps (hP : Ordinary P) (h : Pending r i v a s) :
    ∃ a' v', Steps P a a' ∧ Pending r i v' a' (abortStartServer i s) ∧ a'.slot ≠ some i ∧
      (v' = v ∨ v' = { v with serverStatus := .ignore }) := by
  unfold abortStartServer
  split
  · rename_i hs
    obtain ⟨d, hd, hv⟩ := h.find
    have hslot : a.slot = some i := h.slot ▸ hs
    let w := { v with serverStatus := .ignore }
    refine ⟨{ a.set i w with
        slot := none, timer := if v.serverStatus = .ignore then a.timer else TO_INF }, w,
      Path.one (.abort i) (hP _ _ rfl) ⟨hslot, .inl ⟨v, h.disp, rfl⟩⟩, ?_, by simp, .inr rfl⟩
    refine ⟨by simp, Reap.ok_ignore h.ok, ?_⟩
    have hst : d.serverStatus = v.serverStatus := by
      have := congrArg View.serverStatus hv
      rwa [Reap.apply_serverStatus] at this
    rw [withDisplay_some hd, hst]
    split
    · rename_i hne
      have hm := h.modify (f := fun d => { d with serverStatus := .ignore }) hd fun _ => rfl
      have hw : viewOf { d with serverStatus := .ignore } = r.apply w := by
        rw [Reap.apply_ignore, ← hv]; rfl
      rw [hw] at hm
      have : abs { { s.setServerStatus i .ignore with serverTimeout := TO_INF } with
          startingServer := none } =
          { abs (s.setServerStatus i .ignore) with slot := none, timer := TO_INF } := rfl
      rw [this]
      unfold State.setServerStatus
      rw [hm]
      simp [Abs.set]
    · rename_i hne
      have hw : w = v := by
        show { v with serverStatus := .ignore } = v
        rw [← not_not.mp hne]
      have : abs { s with startingServer := none } = { abs s with slot := none } := rfl
      rw [this, h.eq, hw]
      simp [Abs.set, not_not.mp hne]
  · rename_i hs
    exact ⟨a, v, Path.nil _, h, fun he => hs (h.slot.trans he), .inl rfl⟩

theorem View.stop_of_quiet (hq : v.quiet) (b : Bool) :
    v.stop (.textMode b) = { v with status := .textMode } := by
  unfold View.stop; rw [if_pos hq]

/-- The part of `rStopDisplay` after `abortStartServer`. -/
theorem stopTo_steps (hP : Ordinary P) (h : Pending r i v a s) (hslot : a.slot ≠ some i)
    (hdest : v.destined r z) (hz : r = .none → z ≠ .remote ∧ P (.stop i .none z) a) :
    Steps P a (abs (stopTo i z s)) := by
  obtain ⟨d, hd, hv⟩ := h.find
  have hstop : P (.stop i r z) a := by
    by_cases hr : r = .none
    · subst hr; exact (hz rfl).2
    · exact hP _ _ (by simp [Act.ordinary, hr])
  have hquiet : (r.apply v).quiet ↔ d.pid = -1 ∧ d.serverPid = -1 := by rw [← hv]; rfl
  unfold stopTo
  rw [withDisplay_some hd]
  split
  · rename_i hp
    have hnq : ¬ (r.apply v).quiet := by
      rw [hquiet]; rintro ⟨h1, h2⟩; exact hp.elim (fun h => h h2) (fun h => h h1)
    refine Path.one (.stop i r z) hstop ⟨v, h.disp, hslot, h.ok, hdest, .inl hnq, ?_⟩
    rw [h.modify hd (by intro; rfl)]
    unfold View.stop
    rw [if_neg hnq, ← hv]
    rfl
  · rename_i hp
    have hq : (r.apply v).quiet := by
      rw [hquiet]
      constructor
      · by_contra h1; exact hp (.inr h1)
      · by_contra h1; exact hp (.inl h1)
    have hset (st : DisplayStatus) :
        abs (s.setStatus i st) = a.set i { r.apply v with status := st } := by
      unfold State.setStatus
      rw [h.modify hd (by intro; rfl), ← hv]
      rfl
    have hremove : z = .restart ∨ z = .remove → Steps P a (abs (removeDisplay i s)) := by
      intro hzz
      refine Path.one (.remove i r z) (hP _ _ rfl) ⟨v, h.disp, hslot, h.ok, hdest, hq, hzz, ?_⟩
      rw [abs_removeDisplay, h.eq]
      simp [Abs.drop, Abs.set]
    cases z with
    | textMode b =>
      have h1 : Steps P a (abs (s.setStatus i .textMode)) := by
        refine Path.one (.stop i r (.textMode b)) hstop
          ⟨v, h.disp, hslot, h.ok, hdest, .inr (.inl ⟨b, rfl⟩), ?_⟩
        rw [hset, View.stop_of_quiet hq]
      cases b with
      | true => exact h1
      | false => exact h1.trans (checkTTYMode_steps hP _)
    | reserve =>
      refine Path.one (.stop i r .reserve) hstop
        ⟨v, h.disp, hslot, h.ok, hdest, .inr (.inr rfl), ?_⟩
      show abs (s.setStatus i .reserve) = _
      rw [hset]
      unfold View.stop
      rw [if_pos hq]
    | remote =>
      have hr : r ≠ .none := fun hr => (hz hr).1 rfl
      dsimp only
      unfold startRemoteLogin
      rcases hf : s.fork with ⟨pid, s1⟩
      have h1 : Pending r i v a s1 := ⟨h.disp, h.ok, (abs_of_fork hf).trans h.eq⟩
      have hd1 : s1.find i = some d := (find_of_fork hf).trans hd
      refine Path.one (.remote i r pid) (hP _ _ rfl)
        ⟨v, h.disp, hslot, h.ok, hdest, hq, hr, ?_⟩
      have hw (st : DisplayStatus) : abs ((s1.setServerPid i pid).setStatus i st) =
          a.set i { r.apply v with serverPid := pid, status := st } := by
        unfold State.setServerPid State.setStatus
        rw [modify_modify (by intro; rfl), h1.modify hd1 (by intro; rfl), ← hv]
        rfl
      dsimp only
      split <;> exact hw _
    | restart => exact hremove (.inl rfl)
    | remove => exact hremove (.inr rfl)

/-- **`rStopDisplay`**, with the exit that led to it. -/
theorem rStopDisplay_steps (hP : Ordinary P) (h : Pending r i v a s) (hdest : v.destined r z)
    (hz : r = .none → z = .remove ∨ (z ≠ .remote ∧ ∀ a' w, a'.disp i = some w →
      (w.serverStatus = v.serverStatus ∨ w.serverStatus = .ignore) → P (.stop i .none z) a')) :
    Steps P a (abs (rStopDisplay i z s)) := by
  obtain ⟨a', v', hsteps, h', hslot, hv'⟩ := abortStartServer_steps hP h
  have hdest' : v'.destined r z := by rcases hv' with rfl | rfl <;> exact hdest
  refine hsteps.trans (stopTo_steps hP h' hslot hdest' ?_)
  intro hr
  rcases hz hr with rfl | ⟨hne, hall⟩
  · exact ⟨by simp, hP _ _ rfl⟩
  · refine ⟨hne, hall a' v' h'.disp ?_⟩
    rcases hv' with rfl | rfl
    · exact .inl rfl
    · exact .inr rfl

/-- `stopDisplay` of a display that nothing happened to. -/
theorem stopDisplay_steps (hP : Ordinary P) (i : Id) (s : State) :
    Steps P (abs s) (abs (stopDisplay i s)) := by
  cases hd : s.find i with
  | some d =>
    exact rStopDisplay_steps hP (Pending.none hd) (fun h => absurd rfl h) fun _ => .inl rfl
  | none =>
    have hstop (s : State) (hd : s.find i = none) : stopTo i .remove s = s := withDisplay_none hd
    unfold stopDisplay rStopDisplay
    by_cases hs : s.startingServer = some i
    · have ha : abortStartServer i s = { s with startingServer := none } := by
        unfold abortStartServer
        rw [if_pos hs, withDisplay_none hd]
      rw [ha, hstop { s with startingServer := none } hd]
      exact Path.one (.abort i) (hP _ _ rfl) ⟨hs, .inr ⟨abs_disp_none hd, rfl⟩⟩
    · have ha : abortStartServer i s = s := if_neg hs
      rw [ha, hstop s hd]
      exact Path.nil _

/-! ## Server starts -/

/-- A server start of display `i` fails: the model is still where the start was tried or under
way, the code has noted what came of it. -/
theorem startServerFailed_steps (hP : Ordinary P) (hT : Timed P) (lost : Bool) (st : ServerStatus)
    {t : Int} (hv : a.disp i = some v) (hm : a.mayFail i lost v)
    (hs : abs s = { a.set i { v with
        serverStatus := st, serverPid := if lost then -1 else v.serverPid } with
      slot := some i, timer := t }) :
    Steps P a (abs (startServerFailed s)) := by
  have hslot : s.startingServer = some i := congrArg Abs.slot hs
  have hdisp : (abs s).disp i = some { v with
      serverStatus := st, serverPid := if lost then -1 else v.serverPid } := by rw [hs]; simp [Abs.set]
  have hnow : s.now = a.now := congrArg Abs.now hs
  obtain ⟨d, hd, hdv⟩ := find_of_disp hdisp
  have hset (st' : ServerStatus) : abs (s.setServerStatus i st') = { a.set i { v with
      serverStatus := st', serverPid := if lost then -1 else v.serverPid } with
      slot := some i, timer := t } := by
    rw [abs_setServerStatus hd, hs, ← hdv]
    simp [Abs.set]
  have hopen : d.conf.openDelay = v.openDelay := (congrArg View.openDelay hdv).symm
  unfold startServerFailed
  rw [hslot]
  dsimp only
  rw [withDisplay_some hd]
  split
  · refine Path.one (.retry i lost) (hT _ _ rfl) ⟨v, hv, hm, ?_⟩
    show { abs (s.setServerStatus i .pausing) with timer := d.conf.openDelay + s.now } = _
    rw [hset, hopen, hnow]
  · refine Runs.Path.trans (Path.one (.giveUp i lost) (hP _ _ rfl) ⟨v, hv, hm, rfl⟩)
      (Runs.Path.trans (Path.of_eq ?_) (stopDisplay_steps hP i _))
    show _ = { abs (s.setServerStatus i .ignore) with timer := TO_INF, slot := none }
    rw [hset]

/-- `startServerOnce` where the model may try a start. -/
theorem startServerOnce_steps (hP : Ordinary P) (hT : Timed P) {t : Int}
    (hv : a.disp i = some v) (hm : a.mayTry i v)
    (hs : abs s = { a with slot := some i, timer := t }) :
    Steps P a (abs (startServerOnce s)) := by
  have hslot : s.startingServer = some i := congrArg Abs.slot hs
  have hdisp : (abs s).disp i = some v := by rw [hs]; exact hv
  have hnow : s.now = a.now := congrArg Abs.now hs
  obtain ⟨d, hd, rfl⟩ := find_of_disp hdisp
  unfold startServerOnce
  rw [hslot]
  dsimp only
  rw [withDisplay_some hd]
  have hid : ∀ d : Display,
      ({ d with startTries := d.startTries + 1, serverStatus := .starting } : Display).id = d.id :=
    fun _ => rfl
  have h1 := abs_modify hd hid
  have hd1 := find_modify_self hd hid
  generalize s.modify i _ = s1 at h1 hd1 ⊢
  rcases hf : s1.fork with ⟨pid, s2⟩
  have h2 : abs s2 = abs s1 := abs_of_fork hf
  have hd2 := (find_of_fork hf).trans hd1
  dsimp only
  have h3 : abs (s2.setServerPid i pid) = { a.set i { viewOf d with
      serverStatus := .starting, serverPid := pid } with slot := some i, timer := t } := by
    rw [abs_setServerPid hd2, h2, h1, hs]
    simp [Abs.set, viewOf, Display.isLocal]
  split
  · rename_i hpid
    refine startServerFailed_steps hP hT true .starting hv hm (t := t) ?_
    rw [h3, hpid]
    rfl
  · rename_i hpid
    refine Path.one (.serverStart i pid) (hT _ _ rfl) ⟨viewOf d, hv, hm, hpid, ?_⟩
    have hn3 : (s2.setServerPid i pid).now = a.now := congrArg Abs.now h3
    show { abs (s2.setServerPid i pid) with timer := d.conf.serverTimeout + (s2.setServerPid i pid).now } = _
    rw [h3, hn3]
    rfl

/-- `startServer` of a display that awaits its server while the slot is free. -/
theorem startServer_steps (hP : Ordinary P) (hT : Timed P) (hd : s.find i = some d)
    (haw : d.serverStatus = .awaiting) (hs : s.startingServer = none) :
    Steps P (abs s) (abs (startServer i s)) := by
  unfold startServer
  rw [withDisplay_some hd]
  have hcall : Step (.call (.startServer i d.status)) (abs s) (abs (s.log (.startServer i d.status))) :=
    ⟨⟨viewOf d, abs_disp hd, rfl, haw, hs⟩, rfl⟩
  refine Runs.Path.trans (Path.one _ (hP _ _ rfl) hcall) ?_
  have hd1 : (s.log (.startServer i d.status)).find i = some d := hd
  refine startServerOnce_steps hP hT (t := s.serverTimeout) (v := viewOf d) (i := i) (abs_disp hd1)
    (.inl ⟨hs, haw⟩) ?_
  have := abs_modify_unseen (s := { s.log (.startServer i d.status) with startingServer := some i })
    (i := i) (f := fun d => { d with startTries := 0 }) (fun _ => rfl) fun _ => rfl
  rw [this]
  rfl

/-- `startServerTimeout`, run when the timer has expired and was reset. -/
theorem startServerTimeout_steps (hP : Ordinary P) (hT : Timed P) (ha : a.timer ≤ a.now)
    (hs : abs s = { a with timer := TO_INF }) : Steps P a (abs (startServerTimeout s)) := by
  have hslot : s.startingServer = a.slot := congrArg Abs.slot hs
  have hnow : s.now = a.now := congrArg Abs.now hs
  unfold startServerTimeout
  rw [hslot]
  cases hsl : a.slot with
  | none =>
    refine Path.one (.crash .startServerTimeout) (hP _ _ rfl) ⟨hsl, ha, ?_⟩
    show { abs s with fault := some .startServerTimeout } = _
    rw [hs]
  | some i =>
    dsimp only
    cases hd : s.find i with
    | none =>
      rw [withDisplay_none hd]
      refine Path.one .timerOff (hP _ _ rfl) ⟨⟨i, hsl, fun v hv => ?_⟩, hs⟩
      have : (abs s).disp i = some v := by rw [hs]; exact hv
      rw [abs_disp_none hd] at this
      cases this
    | some d =>
      rw [withDisplay_some hd]
      have hv : a.disp i = some (viewOf d) := by
        have := abs_disp hd
        rw [hs] at this
        exact this
      have hoff : d.serverStatus.inStart = false → Steps P a (abs s) := by
        intro hst
        refine Path.one .timerOff (hP _ _ rfl) ⟨⟨i, hsl, fun v hv' => ?_⟩, hs⟩
        rw [hv] at hv'
        cases hv'
        exact hst
      have hset (st : ServerStatus) (t : Int) :
          abs { s.setServerStatus i st with serverTimeout := t } =
            { a.set i { viewOf d with serverStatus := st } with timer := t } := by
        show { abs (s.setServerStatus i st) with timer := t } = _
        rw [abs_setServerStatus hd, hs]
        rfl
      split
      · rename_i hst; exact hoff (by rw [hst]; rfl)
      · rename_i hst; exact hoff (by rw [hst]; rfl)
      · rename_i hst
        refine Path.one (.escalate i) (hT _ _ rfl) ⟨viewOf d, hv, hsl, .inl ⟨hst, ?_⟩⟩
        rw [hset, hnow]
        rfl
      · rename_i hst
        refine Path.one (.escalate i) (hT _ _ rfl) ⟨viewOf d, hv, hsl, .inr ⟨hst, ?_⟩⟩
        rw [hset, hnow]
      · rename_i hst
        refine startServerFailed_steps hP hT false .killed (t := TO_INF) hv
          ⟨hsl, by rw [show (viewOf d).serverStatus = .killed from hst]; simp⟩ ?_
        rw [hs]
        have : ({ viewOf d with serverStatus := .killed } : View) = viewOf d := by rw [← hst]; rfl
        simp [this, Abs.set_eq_self hv, ← hsl]
      · rename_i hst
        refine startServerOnce_steps hP hT (t := TO_INF) hv (.inr ⟨hsl, hst⟩) ?_
        rw [hs, hsl]

end Kdm
