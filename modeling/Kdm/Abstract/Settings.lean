import Kdm.Abstract.Model

/-!
# What is set from outside

The timeouts of a display come from its configuration and its shutdown record from commands; no
other action writes them.  `Step.inherits` says so for all actions at once.

Principal result: `Step.inherits`, with `Step.same_timeouts` and `Step.same_sd`.
-/

namespace Kdm

variable {a b c : Abs} {x : Act} {i : Id} {v w : View}

/-- Every display is new or was there before, related by `R`. -/
def Inherits (R : View → View → Prop) (a b : Abs) : Prop :=
  ∀ i w, b.disp i = some w → w = .fresh ∨ ∃ v, a.disp i = some v ∧ R v w

/-- Actions on the configuration of a display. -/
def Act.confs : Act → Bool
  | .conf _ _ _ => true
  | _ => false

/-- Actions on the shutdown record of a display. -/
def Act.storesSd : Act → Bool
  | .acceptSd _ | .putLocalSd _ _ | .dropSd _ => true
  | _ => false

/-- What an action leaves as it was. -/
structure SameSettings (x : Act) (v w : View) : Prop where
  timeouts : x.confs = false → w.serverTimeout = v.serverTimeout ∧ w.openDelay = v.openDelay
  sd : x.storesSd = false → w.sd = v.sd

theorem SameSettings.refl (v : View) : SameSettings x v v := ⟨fun _ => ⟨rfl, rfl⟩, fun _ => rfl⟩

namespace Inherits

theorem of_disp (hd : b.disp = a.disp) : Inherits (SameSettings x) a b :=
  fun _ w hw => .inr ⟨w, hd ▸ hw, .refl w⟩

theorem of_set (hd : b.disp = (a.set i w).disp) (hv : a.disp i = some v)
    (hw : SameSettings x v w) : Inherits (SameSettings x) a b := by
  intro j u hu
  rw [hd, Abs.set_disp] at hu
  split at hu
  · rename_i hj
    cases hu
    exact .inr ⟨v, hj ▸ hv, hw⟩
  · exact .inr ⟨u, hu, .refl u⟩

theorem of_drop (hd : b.disp = (a.drop i).disp) : Inherits (SameSettings x) a b := by
  intro j u hu
  rw [hd, Abs.drop_disp] at hu
  split at hu
  · cases hu
  · exact .inr ⟨u, hu, .refl u⟩

theorem of_setCtrl {y : Option Id} {fd : Int} {css : List Int}
    (hd : b.disp = (a.setCtrl y fd css).disp) : Inherits (SameSettings x) a b := by
  intro j w hw
  rw [hd] at hw
  obtain ⟨v, c, l, hv, rfl⟩ := Abs.setCtrl_origin hw
  exact .inr ⟨v, hv, fun _ => ⟨rfl, rfl⟩, fun _ => rfl⟩

end Inherits

/-- **Settings are inherited.** -/
theorem Step.inherits (hs : Step x a b) : Inherits (SameSettings x) a b := by
  cases x with
  | discard => cases hs; exact .of_drop rfl
  | create v =>
    obtain ⟨rfl, rfl⟩ := hs
    intro j w hw
    rw [Abs.add_disp] at hw
    split at hw
    · exact .inl (Option.some.inj hw).symm
    · exact .inr ⟨w, hw, .refl w⟩
  | conf i t o =>
    obtain ⟨v, hv, rfl⟩ := hs
    exact .of_set rfl hv ⟨nofun, fun _ => rfl⟩
  | tick n => obtain ⟨-, -, rfl⟩ := hs; exact .of_disp rfl
  | acceptSd i =>
    obtain ⟨v, hv, -, rfl⟩ := hs
    exact .of_set rfl hv ⟨fun _ => ⟨rfl, rfl⟩, nofun⟩
  | putLocalSd i r =>
    obtain ⟨v, hv, rfl⟩ := hs
    exact .of_set rfl hv ⟨fun _ => ⟨rfl, rfl⟩, nofun⟩
  | listenOpen fd => obtain ⟨-, -, rfl⟩ := hs; exact .of_disp rfl
  | listenDrop keep dead => obtain ⟨-, rfl⟩ := hs; exact .of_disp rfl
  | cancelSd | expireSd | stopAll | putSd r => cases hs; exact .of_disp rfl
  | reachSd => obtain ⟨-, -, rfl⟩ := hs; exact .of_disp rfl
  | call c => obtain ⟨-, rfl⟩ := hs; exact .of_disp rfl
  | timerOff => obtain ⟨-, rfl⟩ := hs; exact .of_disp rfl
  | crash f => obtain ⟨-, -, rfl⟩ := hs; exact .of_disp rfl
  | relocate i l =>
    obtain ⟨v, hv, rfl⟩ := hs
    exact .of_set rfl hv ⟨fun _ => ⟨rfl, rfl⟩, fun _ => rfl⟩
  | unreserve i | makeReserve i | user i uid | retry i lost | giveUp i lost | closePipe i
  | closeGPipe i | breakPipe i | breakGPipe i =>
    obtain ⟨v, hv, -, rfl⟩ := hs
    exact .of_set rfl hv ⟨fun _ => ⟨rfl, rfl⟩, fun _ => rfl⟩
  | wake i st | raise i | noSession i pid | serverExit i st | serverStart i pid | startAwait i =>
    obtain ⟨v, hv, -, -, rfl⟩ := hs
    exact .of_set rfl hv ⟨fun _ => ⟨rfl, rfl⟩, fun _ => rfl⟩
  | session i pid p g =>
    obtain ⟨v, hv, -, -, -, rfl⟩ := hs
    exact .of_set (w := { v with status := .running, pid := pid, pipe := p, gpipe := g })
      Abs.openPair_set_disp hv ⟨fun _ => ⟨rfl, rfl⟩, fun _ => rfl⟩
  | serverReadyFails i pid =>
    obtain ⟨v, hv, -, -, -, rfl⟩ := hs
    exact .of_set rfl hv ⟨fun _ => ⟨rfl, rfl⟩, fun _ => rfl⟩
  | restart i st =>
    obtain ⟨v, hv, -, -, -, rfl⟩ := hs
    exact .of_set rfl hv ⟨fun _ => ⟨rfl, rfl⟩, fun _ => rfl⟩
  | serverReady i pid p g =>
    obtain ⟨v, hv, -, -, -, -, rfl⟩ := hs
    exact .of_set (w := { v with serverStatus := .ignore, pid := pid, pipe := p, gpipe := g })
      Abs.openPair_set_timer_disp hv ⟨fun _ => ⟨rfl, rfl⟩, fun _ => rfl⟩
  | stop i r z =>
    obtain ⟨v, hv, -, -, -, -, rfl⟩ := hs
    exact .of_set rfl hv ⟨fun _ => ⟨by simp, by simp⟩, fun _ => by simp⟩
  | remote i r pid =>
    obtain ⟨v, hv, -, -, -, -, -, rfl⟩ := hs
    exact .of_set rfl hv ⟨fun _ => ⟨by simp, by simp⟩, fun _ => by simp⟩
  | escalate i =>
    obtain ⟨v, hv, -, ⟨-, rfl⟩ | ⟨-, rfl⟩⟩ := hs
    all_goals exact .of_set rfl hv ⟨fun _ => ⟨rfl, rfl⟩, fun _ => rfl⟩
  | abort i =>
    obtain ⟨-, ⟨v, hv, rfl⟩ | ⟨-, rfl⟩⟩ := hs
    · exact .of_set rfl hv ⟨fun _ => ⟨rfl, rfl⟩, fun _ => rfl⟩
    · exact .of_disp rfl
  | dropSd i =>
    obtain ⟨v, r, hv, -, rfl⟩ := hs
    exact .of_set rfl hv ⟨fun _ => ⟨rfl, rfl⟩, nofun⟩
  | xconnOk i =>
    obtain ⟨v, -, -, rfl⟩ := hs
    exact .of_disp rfl
  | unregister fd => cases hs; exact .of_disp rfl
  | remove i r z =>
    obtain ⟨v, -, -, -, -, -, -, rfl⟩ := hs
    exact .of_drop rfl
  | openCtrl y fd =>
    obtain ⟨c, -, -, -, -, -, rfl⟩ := hs
    exact .of_setCtrl rfl
  | closeCtrl y =>
    obtain ⟨c, -, rfl⟩ := hs
    exact .of_setCtrl rfl
  | accept y fd =>
    obtain ⟨c, -, -, -, -, rfl⟩ := hs
    exact .of_setCtrl rfl
  | nuke y fd =>
    obtain ⟨c, -, -, rfl⟩ := hs
    exact .of_setCtrl rfl

/-! ## Timeouts -/

/-- Actions on the clock and the timeouts of the displays. -/
def Act.sets : Act → Bool
  | .conf _ _ _ | .tick _ => true
  | _ => false

/-- The clock stands still, and every display has the timeouts it had, or none. -/
def SameTimeouts (a b : Abs) : Prop :=
  b.now = a.now ∧ ∀ i w, b.disp i = some w → (w.serverTimeout = 0 ∧ w.openDelay = 0) ∨
    ∃ v, a.disp i = some v ∧ w.serverTimeout = v.serverTimeout ∧ w.openDelay = v.openDelay

theorem SameTimeouts.refl (a : Abs) : SameTimeouts a a :=
  ⟨rfl, fun _ w hw => .inr ⟨w, hw, rfl, rfl⟩⟩

theorem SameTimeouts.trans (h : SameTimeouts a b) (h' : SameTimeouts b c) : SameTimeouts a c := by
  refine ⟨h'.1.trans h.1, fun i w hw => ?_⟩
  rcases h'.2 i w hw with h0 | ⟨v, hv, ht, ho⟩
  · exact .inl h0
  · rcases h.2 i v hv with ⟨ht0, ho0⟩ | ⟨u, hu, ht', ho'⟩
    · exact .inl ⟨ht.trans ht0, ho.trans ho0⟩
    · exact .inr ⟨u, hu, ht.trans ht', ho.trans ho'⟩

theorem Step.same_now (hx : x.sets = false) (hs : Step x a b) : b.now = a.now := by
  cases x <;> first
    | exact Bool.noConfusion hx
    | (simp only [Step] at hs
       grind -ring -linarith -order [Abs.set, Abs.add, Abs.drop, Abs.openPair, Abs.open_, Abs.register, Abs.closeAll,
         Abs.unregisterAll])

theorem Step.same_timeouts (hx : x.sets = false) (hs : Step x a b) : SameTimeouts a b := by
  refine ⟨hs.same_now hx, fun i w hw => ?_⟩
  have hc : x.confs = false := by cases x <;> first | rfl | exact hx
  rcases hs.inherits i w hw with rfl | ⟨v, hv, hvw⟩
  · exact .inl ⟨rfl, rfl⟩
  · exact .inr ⟨v, hv, hvw.timeouts hc⟩

/-! ## Shutdown records -/

theorem Step.same_sd (hx : x.storesSd = false) (hs : Step x a b) (hw : b.disp i = some w) :
    w.sd = .zero ∨ ∃ v, a.disp i = some v ∧ w.sd = v.sd := by
  rcases hs.inherits i w hw with rfl | ⟨v, hv, hvw⟩
  · exact .inl rfl
  · exact .inr ⟨v, hv, hvw.sd hx⟩

end Kdm
