import Kdm.Abstract.Orderly

/-!
# Displays destined for removal

Once a display is a zombie destined for removal, it stays one until its last process is reaped,
and then leaves the list for good, unless console mode overwrites what it is destined for.

Principal result: `Condemned.step`.
-/

namespace Kdm

/-- If it is still in the list, the display is a zombie with a process, to be removed. -/
structure Condemned (i : Id) (a : Abs) : Prop where
  known : i < a.nextId
  zombie : ∀ v, a.disp i = some v → v.status = .zombie ∧ v.zstatus = .remove ∧ ¬ v.quiet

/-- Console mode does not take the display. -/
def KeepsFate (i : Id) : Act → Abs → Prop
  | .stop j .none z, _ => j = i → z = .remove
  | _, _ => True

namespace Condemned

variable {i j : Id} {a b : Abs} {v w : View}

theorem frame (h : Condemned i a) (hd : b.disp = a.disp) (hn : b.nextId = a.nextId) : Condemned i b :=
  ⟨by rw [hn]; exact h.known, by rw [hd]; exact h.zombie⟩

/-- Actions on a display; of a condemned one they keep what matters. -/
theorem set (h : Condemned i a) (hv : a.disp j = some v)
    (hw : v.status = .zombie → v.zstatus = .remove → ¬ v.quiet →
      w.status = .zombie ∧ w.zstatus = .remove ∧ ¬ w.quiet)
    (hd : b.disp = (a.set j w).disp) (hn : b.nextId = a.nextId) : Condemned i b := by
  refine ⟨by rw [hn]; exact h.known, fun u hu => ?_⟩
  rw [hd, Abs.set_disp] at hu
  split at hu
  · rename_i hij
    cases hu
    obtain ⟨h1, h2, h3⟩ := h.zombie v (hij ▸ hv)
    exact hw h1 h2 h3
  · exact h.zombie u hu

/-- Actions that do not apply to a zombie. -/
theorem other (h : Condemned i a) (hv : a.disp j = some v) (hz : v.status ≠ .zombie)
    (hd : b.disp = (a.set j w).disp) (hn : b.nextId = a.nextId) : Condemned i b :=
  h.set hv (fun h1 => absurd h1 hz) hd hn

theorem setCtrl (h : Condemned i a) {x : Option Id} {fd : Int} {css : List Int}
    (hd : b.disp = (a.setCtrl x fd css).disp) (hn : b.nextId = a.nextId) : Condemned i b := by
  refine ⟨by rw [hn]; exact h.known, fun u hu => ?_⟩
  rw [hd] at hu
  obtain ⟨v, c, l, hv, rfl⟩ := Abs.setCtrl_origin hu
  exact h.zombie v hv

theorem drop (h : Condemned i a) (hd : b.disp = (a.drop j).disp) (hn : a.nextId ≤ b.nextId) :
    Condemned i b := by
  refine ⟨Nat.lt_of_lt_of_le h.known hn, fun u hu => ?_⟩
  rw [hd, Abs.drop_disp] at hu
  split at hu
  · cases hu
  · exact h.zombie u hu

end Condemned

/-- A display that holds the slot is no zombie. -/
theorem Orderly.slot_not_zombie {i : Id} {a : Abs} {v : View} (ho : Orderly a) (hsl : a.slot = some i)
    (hv : a.disp i = some v) : v.status ≠ .zombie :=
  fun hz => ((ho.good i v hv).zombie hz).1 hsl

theorem Good.running_not_zombie {v : View} (h : v.status = .running) : v.status ≠ .zombie := by
  rw [h]; decide

/-- **Removal is final.** -/
theorem Condemned.step {i : Id} {x : Act} {a b : Abs} (h : Condemned i a) (ho : Orderly a)
    (hx : KeepsFate i x a) (hs : Step x a b) : Condemned i b := by
  cases x with
  | create v =>
    obtain ⟨rfl, rfl⟩ := hs
    refine ⟨Nat.lt_succ_of_lt h.known, fun u hu => ?_⟩
    rw [Abs.add_disp, if_neg (Nat.ne_of_lt h.known)] at hu
    exact h.zombie u hu
  | discard => cases hs; exact h.drop rfl (Nat.le_succ _)
  | remove j r z =>
    obtain ⟨v, -, -, -, -, -, -, rfl⟩ := hs
    exact h.drop rfl (Nat.le_refl _)
  | stop j r z =>
    obtain ⟨v, hv, -, -, hdest, hst, rfl⟩ := hs
    refine ⟨h.known, fun u hu => ?_⟩
    rw [Abs.set_disp] at hu
    split at hu
    · rename_i hij
      cases hu
      obtain ⟨h1, h2, -⟩ := h.zombie v (hij ▸ hv)
      have hz : z = .remove := by
        by_cases hr : r = .none
        · subst hr; exact hx hij.symm
        · exact (hdest hr h1).trans h2
      subst hz
      rcases View.stop_status hst with ⟨hq, hs1, hs2⟩ | ⟨-, ⟨b, hb⟩, -⟩ | ⟨-, hb, -⟩
      · exact ⟨hs1, hs2, by simpa [View.quiet] using hq⟩
      · cases hb
      · cases hb
    · exact h.zombie u hu
  | remote j r pid =>
    obtain ⟨v, hv, -, -, hdest, -, hne, rfl⟩ := hs
    refine h.set hv (fun h1 h2 _ => ?_) rfl rfl
    have := (hdest hne h1).trans h2
    cases this
  | restart j st =>
    obtain ⟨v, hv, -, hz, -, rfl⟩ := hs
    exact h.other hv hz rfl rfl
  | serverExit j st =>
    obtain ⟨v, hv, -, hto, rfl⟩ := hs
    refine h.other hv (fun hz => ?_) rfl rfl
    rw [hz] at hto
    exact hto
  | wake j st =>
    obtain ⟨v, hv, hst, -, rfl⟩ := hs
    exact h.other hv (by rw [hst]; decide) rfl rfl
  | unreserve j | makeReserve j =>
    obtain ⟨v, hv, hst, rfl⟩ := hs
    exact h.other hv (by rw [hst]; decide) rfl rfl
  | startAwait j | raise j | noSession j pid =>
    obtain ⟨v, hv, hst, -, rfl⟩ := hs
    exact h.other hv (by rw [hst]; decide) rfl rfl
  | session j pid p g =>
    obtain ⟨v, hv, hst, -, -, rfl⟩ := hs
    exact h.other (w := { v with status := .running, pid := pid, pipe := p, gpipe := g }) hv (by rw [hst]; decide)
      Abs.openPair_set_disp (by simp [Abs.set])
  | abort j =>
    obtain ⟨hsl, ⟨v, hv, rfl⟩ | ⟨-, rfl⟩⟩ := hs
    · exact h.other hv (ho.slot_not_zombie hsl hv) rfl rfl
    · exact h.frame rfl rfl
  | serverStart j pid =>
    obtain ⟨v, hv, hm, -, rfl⟩ := hs
    refine h.other hv ?_ rfl rfl
    rcases hm with ⟨-, haw⟩ | ⟨hsl, -⟩
    · exact Good.running_not_zombie ((ho.good j v hv).awaiting haw).1
    · exact ho.slot_not_zombie hsl hv
  | retry j lost | giveUp j lost =>
    obtain ⟨v, hv, hm, rfl⟩ := hs
    exact h.other hv (Good.running_not_zombie ((ho.good j v hv).failing hm).1) rfl rfl
  | escalate j =>
    obtain ⟨v, hv, hsl, ⟨-, rfl⟩ | ⟨-, rfl⟩⟩ := hs
    all_goals exact h.other hv (ho.slot_not_zombie hsl hv) rfl rfl
  | serverReady j pid p g =>
    obtain ⟨v, hv, hsl, -, -, -, rfl⟩ := hs
    exact h.other (w := { v with serverStatus := .ignore, pid := pid, pipe := p, gpipe := g }) hv (ho.slot_not_zombie hsl hv)
      Abs.openPair_set_timer_disp (by simp [Abs.set])
  | serverReadyFails j pid =>
    obtain ⟨v, hv, hsl, -, -, rfl⟩ := hs
    exact h.other hv (ho.slot_not_zombie hsl hv) rfl rfl
  | relocate j l | putLocalSd j r | conf j t o =>
    obtain ⟨v, hv, rfl⟩ := hs
    refine h.set hv ?_ rfl rfl
    exact fun h1 h2 h3 => ⟨h1, h2, h3⟩
  | user j uid | closePipe j | closeGPipe j | breakPipe j | breakGPipe j | acceptSd j =>
    obtain ⟨v, hv, -, rfl⟩ := hs
    refine h.set hv ?_ rfl rfl
    exact fun h1 h2 h3 => ⟨h1, h2, h3⟩
  | dropSd j =>
    obtain ⟨v, r, hv, -, rfl⟩ := hs
    refine h.set hv ?_ rfl rfl
    exact fun h1 h2 h3 => ⟨h1, h2, h3⟩
  | openCtrl y fd =>
    obtain ⟨c, -, -, -, -, -, rfl⟩ := hs
    exact h.setCtrl rfl (by simp [Abs.register, Abs.open_])
  | closeCtrl y =>
    obtain ⟨c, -, rfl⟩ := hs
    exact h.setCtrl rfl (by simp [Abs.unregisterAll, Abs.closeAll])
  | accept y fd =>
    obtain ⟨c, -, -, -, -, rfl⟩ := hs
    exact h.setCtrl rfl (by simp [Abs.register, Abs.open_])
  | nuke y fd =>
    obtain ⟨c, -, -, rfl⟩ := hs
    exact h.setCtrl rfl (by simp [Abs.unregisterAll, Abs.closeAll])
  | call c => obtain ⟨-, rfl⟩ := hs; exact h.frame rfl rfl
  | xconnOk j => obtain ⟨v, -, -, rfl⟩ := hs; exact h.frame rfl rfl
  | timerOff => obtain ⟨-, rfl⟩ := hs; exact h.frame rfl rfl
  | crash f => obtain ⟨-, -, rfl⟩ := hs; exact h.frame rfl rfl
  | listenOpen fd => obtain ⟨-, -, rfl⟩ := hs; exact h.frame rfl rfl
  | listenDrop keep dead => obtain ⟨-, rfl⟩ := hs; exact h.frame rfl rfl
  | reachSd => obtain ⟨-, -, rfl⟩ := hs; exact h.frame rfl rfl
  | tick n => obtain ⟨-, -, rfl⟩ := hs; exact h.frame rfl rfl
  | unregister fd => cases hs; exact h.frame rfl rfl
  | cancelSd | expireSd | stopAll | putSd r => cases hs; exact h.frame rfl rfl

end Kdm
