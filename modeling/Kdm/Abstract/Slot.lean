import Kdm.Abstract.Orderly

/-!
# The server-start slot

Two invariants of the orderly runs.  `Owned`: a start step is only scheduled for the display
that holds the slot, and that display is being started.  `Held`: the display that holds the slot
is running, and either a start step is scheduled or its session will report the start's end.

Principal results: `Owned.step`, `Held.step`.
-/

namespace Kdm

/-- Actions of the server starts. -/
def Act.starts : Act → Bool
  | .abort _ | .serverStart _ _ | .retry _ _ | .giveUp _ _ | .escalate _ | .timerOff | .crash _
  | .serverReady _ _ _ _ | .serverReadyFails _ _ | .xconnOk _ => true
  | _ => false

variable {a b : Abs} {x : Act} {i : Id} {v : View}

/-! ## Actions that do not start a server -/

theorem Step.slot_frame (hx : x.starts = false) (hs : Step x a b) :
    b.slot = a.slot ∧ b.timer = a.timer ∧ b.fault = a.fault := by
  cases x <;> first
    | exact Bool.noConfusion hx
    | (simp only [Step] at hs
       grind -ring -linarith -order [Abs.set, Abs.add, Abs.drop, Abs.openPair, Abs.open_, Abs.register, Abs.closeAll,
         Abs.unregisterAll])

/-- The display that holds the slot stays as it is, unless its session is restarted or raised. -/
theorem Step.holder (hx : x.starts = false) (hs : Step x a b) (hsl : a.slot = some i)
    (hv : a.disp i = some v) (hrun : v.status = .running) (hn : i < a.nextId) :
    ∃ w, b.disp i = some w ∧ w.serverStatus = v.serverStatus ∧
      (w.status = .running ∧ w.pid = v.pid ∨ (∃ st, x = .restart i st) ∨ x = .raise i) := by
  have same (h : b.disp i = a.disp i) : ∃ w, b.disp i = some w ∧ w.serverStatus = v.serverStatus ∧
      (w.status = .running ∧ w.pid = v.pid ∨ (∃ st, x = .restart i st) ∨ x = .raise i) :=
    ⟨v, h.trans hv, rfl, .inl ⟨hrun, rfl⟩⟩
  cases x with
  | discard => cases hs; exact same (by simp [Nat.ne_of_lt hn])
  | listenOpen fd => obtain ⟨-, -, rfl⟩ := hs; exact same rfl
  | listenDrop keep dead => obtain ⟨-, rfl⟩ := hs; exact same rfl
  | cancelSd | expireSd | stopAll | putSd r => cases hs; exact same rfl
  | reachSd => obtain ⟨-, -, rfl⟩ := hs; exact same rfl
  | call c => obtain ⟨-, rfl⟩ := hs; exact same rfl
  | tick n => obtain ⟨-, -, rfl⟩ := hs; exact same rfl
  | acceptSd j =>
    obtain ⟨u, hu, -, rfl⟩ := hs
    by_cases hj : i = j
    · subst hj
      cases hv.symm.trans hu
      exact ⟨_, Abs.set_disp.trans (if_pos rfl), rfl, .inl ⟨hrun, rfl⟩⟩
    · exact same (by simp [hj])
  | openCtrl y fd =>
    obtain ⟨c, -, -, -, -, -, rfl⟩ := hs
    obtain ⟨c', l, hw⟩ := Abs.setCtrl_view y fd c.2 hv
    exact ⟨_, hw, rfl, .inl ⟨hrun, rfl⟩⟩
  | closeCtrl y =>
    obtain ⟨c, -, rfl⟩ := hs
    obtain ⟨c', l, hw⟩ := Abs.setCtrl_view y (-1) [] hv
    exact ⟨_, hw, rfl, .inl ⟨hrun, rfl⟩⟩
  | accept y fd | nuke y fd =>
    obtain ⟨c, -, -, -, -, rfl⟩ := hs
    obtain ⟨c', l, hw⟩ := Abs.setCtrl_view y _ _ hv
    exact ⟨_, hw, rfl, .inl ⟨hrun, rfl⟩⟩
  | restart j st =>
    obtain ⟨u, hu, -, -, -, rfl⟩ := hs
    by_cases hj : i = j
    · subst hj
      cases hv.symm.trans hu
      exact ⟨_, Abs.set_disp.trans (if_pos rfl), rfl, .inr (.inl ⟨st, rfl⟩)⟩
    · exact same (by simp [hj])
  | abort | serverStart | retry | giveUp | escalate | timerOff | crash | serverReady
  | serverReadyFails | xconnOk => cases hx
  | _ =>
    simp only [Step] at hs
    grind -ring -linarith -order [exitsTo]
/-! ## The scheduled step belongs to the holder -/

structure Owned (a : Abs) : Prop where
  timer : a.timer ≠ TO_INF → ∃ i v, a.slot = some i ∧ a.disp i = some v ∧ v.serverStatus.inStart = true
  fault : a.fault = none

/-- A session that reports its connection does not end another display's start. -/
def OwnStart : Act → Abs → Prop
  | .xconnOk i, a => a.slot = none ∨ a.slot = some i ∨ a.timer = TO_INF
  | _, _ => True

theorem Owned.holder (h : Owned a) (ho : Orderly a) (ht : a.timer ≠ TO_INF) :
    ∃ i v, a.slot = some i ∧ a.disp i = some v ∧ v.serverStatus.inStart = true ∧
      v.status = .running ∧ v.pid = -1 := by
  obtain ⟨i, v, hsl, hv, hst⟩ := h.timer ht
  obtain ⟨hrun, hpid⟩ := (ho.good i v hv).start hsl hst
  exact ⟨i, v, hsl, hv, hst, hrun, hpid⟩

/-- With the timer off nothing is scheduled. -/
theorem Owned.off (hb : b.timer = TO_INF) (hf : b.fault = none) : Owned b :=
  ⟨fun h => absurd hb h, hf⟩

/-- **A start step is only scheduled for the display that is being started.** -/
theorem Owned.step (h : Owned a) (ho : Orderly a) (hx : OwnStart x a) (hs : Step x a b) : Owned b := by
  by_cases hst : x.starts = false
  · obtain ⟨hslot, htimer, hfault⟩ := hs.slot_frame hst
    refine ⟨fun ht => ?_, hfault.trans h.fault⟩
    rw [htimer] at ht
    obtain ⟨i, v, hsl, hv, hin, hrun, -⟩ := h.holder ho ht
    obtain ⟨w, hw, hws, -⟩ := hs.holder hst hsl hv hrun (ho.fresh i v hv)
    exact ⟨i, w, hslot.trans hsl, hw, by rw [hws]; exact hin⟩
  · cases x with
    | abort i =>
      obtain ⟨hsl, ⟨v, hv, rfl⟩ | ⟨hn, rfl⟩⟩ := hs
      · by_cases hig : v.serverStatus = .ignore
        · refine Owned.off ?_ h.fault
          by_contra ht
          simp only [hig, ↓reduceIte] at ht
          obtain ⟨j, u, hj, hu, hin, -⟩ := h.holder ho ht
          cases hsl.symm.trans hj
          cases hv.symm.trans hu
          rw [hig] at hin
          cases hin
        · exact Owned.off (if_neg hig) h.fault
      · obtain ⟨v, hv⟩ := ho.slot i hsl
        rw [hn] at hv
        cases hv
    | serverStart i pid =>
      obtain ⟨v, hv, -, -, rfl⟩ := hs
      exact ⟨fun _ => ⟨i, _, rfl, Abs.set_disp.trans (if_pos rfl), rfl⟩, h.fault⟩
    | retry i lost =>
      obtain ⟨v, hv, -, rfl⟩ := hs
      exact ⟨fun _ => ⟨i, _, rfl, Abs.set_disp.trans (if_pos rfl), rfl⟩, h.fault⟩
    | giveUp i lost =>
      obtain ⟨v, -, -, rfl⟩ := hs
      exact Owned.off rfl h.fault
    | escalate i =>
      obtain ⟨v, hv, hsl, ⟨-, rfl⟩ | ⟨-, rfl⟩⟩ := hs
      all_goals exact ⟨fun _ => ⟨i, _, hsl, Abs.set_disp.trans (if_pos rfl), rfl⟩, h.fault⟩
    | timerOff =>
      obtain ⟨-, rfl⟩ := hs
      exact Owned.off rfl h.fault
    | crash f =>
      obtain ⟨hsl, hle, -⟩ := hs
      have hclock := ho.clock
      obtain ⟨i, v, hi, -⟩ := h.timer (by omega)
      rw [hsl] at hi
      cases hi
    | serverReady i pid p g =>
      obtain ⟨v, -, -, -, -, -, rfl⟩ := hs
      exact Owned.off rfl h.fault
    | serverReadyFails i pid =>
      obtain ⟨v, -, -, -, -, rfl⟩ := hs
      exact Owned.off rfl h.fault
    | xconnOk i =>
      obtain ⟨v, hv, hpipe, rfl⟩ := hs
      refine Owned.off ?_ h.fault
      by_contra ht
      obtain ⟨j, u, hj, hu, -, -, hpid⟩ := h.holder ho ht
      rcases hx with hn | hi | hn
      · rw [hn] at hj; cases hj
      · cases hi.symm.trans hj
        cases hv.symm.trans hu
        exact hpipe ((ho.good i v hv).pipes hpid).1
      · exact ht hn
    | _ => exact absurd rfl hst

/-! ## The holder's start is not over -/

structure Held (a : Abs) : Prop where
  holder : ∀ i, a.slot = some i → ∃ v, a.disp i = some v ∧ v.status = .running ∧
    ((a.timer ≠ TO_INF ∧ v.serverStatus.inStart = true) ∨ v.pid ≠ -1)

/-- What keeps the slot from being leaked: the holder's session does not end on a path that
leaves the display in the list, and a scheduled time is not taken for `TO_INF`. -/
def KeepsStart : Act → Abs → Prop
  | .restart i _, a | .serverReadyFails i _, a => a.slot ≠ some i
  | .raise i, a => a.slot = some i → ∀ v, a.disp i = some v → v.pid = -1
  | .serverStart i _, a => ∀ v, a.disp i = some v → v.serverTimeout + a.now ≠ TO_INF
  | .retry i _, a => ∀ v, a.disp i = some v → v.openDelay + a.now ≠ TO_INF
  | .escalate i, a =>
    ∀ v, a.disp i = some v → v.serverTimeout + a.now ≠ TO_INF ∧ 10 + a.now ≠ TO_INF
  | _, _ => True

/-- **The slot is not leaked.** -/
theorem Held.step (h : Held a) (ho : Orderly a) (hx : KeepsStart x a) (hs : Step x a b) : Held b := by
  by_cases hst : x.starts = false
  · obtain ⟨hslot, htimer, -⟩ := hs.slot_frame hst
    refine ⟨fun i hi => ?_⟩
    rw [hslot] at hi
    obtain ⟨v, hv, hrun, hlive⟩ := h.holder i hi
    obtain ⟨w, hw, hws, ⟨hwrun, hwpid⟩ | ⟨st, rfl⟩ | rfl⟩ := hs.holder hst hi hv hrun (ho.fresh i v hv)
    · refine ⟨w, hw, hwrun, ?_⟩
      rw [htimer, hws, hwpid]
      exact hlive
    · exact absurd hi hx
    · obtain ⟨u, hu, -, hpid, -⟩ := hs
      exact absurd (hx hi u hu) hpid
  · cases x with
    | abort i =>
      obtain ⟨-, ⟨v, -, rfl⟩ | ⟨-, rfl⟩⟩ := hs
      all_goals exact ⟨fun j hj => nomatch hj⟩
    | giveUp i lost =>
      obtain ⟨v, -, -, rfl⟩ := hs
      exact ⟨fun j hj => nomatch hj⟩
    | xconnOk i =>
      obtain ⟨v, -, -, rfl⟩ := hs
      exact ⟨fun j hj => nomatch hj⟩
    | crash f =>
      obtain ⟨hsl, -, rfl⟩ := hs
      exact ⟨fun j hj => nomatch hsl.symm.trans hj⟩
    | timerOff =>
      obtain ⟨⟨i, hsl, hoff⟩, rfl⟩ := hs
      refine ⟨fun j hj => ?_⟩
      cases hsl.symm.trans hj
      obtain ⟨v, hv, hrun, ⟨-, hin⟩ | hpid⟩ := h.holder i hsl
      · rw [hoff v hv] at hin; cases hin
      · exact ⟨v, hv, hrun, .inr hpid⟩
    | serverStart i pid =>
      obtain ⟨v, hv, hm, -, rfl⟩ := hs
      refine ⟨fun j hj => ?_⟩
      cases hj
      refine ⟨_, Abs.set_disp.trans (if_pos rfl), ?_, .inl ⟨hx v hv, rfl⟩⟩
      rcases hm with ⟨-, haw⟩ | ⟨hsl, hp⟩
      · exact ((ho.good i v hv).awaiting haw).1
      · exact ((ho.good i v hv).start hsl (by rw [hp]; rfl)).1
    | retry i lost =>
      obtain ⟨v, hv, hm, rfl⟩ := hs
      refine ⟨fun j hj => ?_⟩
      cases hj
      exact ⟨_, Abs.set_disp.trans (if_pos rfl), ((ho.good i v hv).failing hm).1, .inl ⟨hx v hv, rfl⟩⟩
    | escalate i =>
      obtain ⟨v, hv, hsl, ⟨hv1, rfl⟩ | ⟨hv1, rfl⟩⟩ := hs
      all_goals
        refine ⟨fun j hj => ?_⟩
        cases hsl.symm.trans hj
        have hrun := ((ho.good i v hv).start hsl (by rw [hv1]; rfl)).1
      · exact ⟨_, Abs.set_disp.trans (if_pos rfl), hrun, .inl ⟨(hx v hv).1, rfl⟩⟩
      · exact ⟨_, Abs.set_disp.trans (if_pos rfl), hrun, .inl ⟨(hx v hv).2, rfl⟩⟩
    | serverReady i pid p g =>
      obtain ⟨v, hv, hsl, hv1, hpid, -, rfl⟩ := hs
      refine ⟨fun j hj => ?_⟩
      cases hsl.symm.trans hj
      have hrun := ((ho.good i v hv).start hsl (by rw [hv1]; rfl)).1
      exact ⟨_, Abs.set_disp.trans (if_pos rfl), hrun, .inr hpid⟩
    | serverReadyFails i pid =>
      obtain ⟨v, -, hsl, -⟩ := hs
      exact absurd hsl hx
    | _ => exact absurd rfl hst

end Kdm
