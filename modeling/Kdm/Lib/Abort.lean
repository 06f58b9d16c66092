/-!
# Computations that may be broken off

`EStateM ε σ` threads a state and keeps it when a computation is broken off.  `Ends m s Q E`
says that `m` started in `s` either returns with `Q` or is broken off with `E`; the rules
follow the structure of the program, so a proof never looks at the result type.
-/

namespace Abort

universe u

variable {ε σ α β : Type u} {m : EStateM ε σ α} {f : α → EStateM ε σ β} {s : σ}
  {Q R : α → σ → Prop} {E F : ε → σ → Prop}

/-- `m` returns with `Q` or is broken off with `E`. -/
def Ends (m : EStateM ε σ α) (s : σ) (Q : α → σ → Prop) (E : ε → σ → Prop) : Prop :=
  match m s with
  | .ok a s' => Q a s'
  | .error e s' => E e s'

theorem Ends.pure {a : α} (h : Q a s) : Ends (Pure.pure a) s Q E := h

theorem Ends.get {Q : σ → σ → Prop} (h : Q s s) : Ends (MonadState.get : EStateM ε σ σ) s Q E := h

theorem Ends.modify {g : σ → σ} {Q : PUnit → σ → Prop} (h : Q ⟨⟩ (g s)) :
    Ends (modify g : EStateM ε σ PUnit) s Q E := h

/-- **Sequencing**: the rest runs from where the first part returned. -/
theorem Ends.bind {Q : β → σ → Prop} (h : Ends m s (fun a s' => Ends (f a) s' Q E) E) :
    Ends (m >>= f) s Q E := by
  unfold Ends at h ⊢
  show match EStateM.bind m f s with | .ok a s' => Q a s' | .error e s' => E e s'
  unfold EStateM.bind
  split at h
  · rename_i a s' hm
    rw [hm]
    exact h
  · rename_i e s' hm
    rw [hm]
    exact h

theorem Ends.mono (h : Ends m s Q E) (hQ : ∀ a s, Q a s → R a s) (hE : ∀ e s, E e s → F e s) :
    Ends m s R F := by
  unfold Ends at h ⊢
  split
  · rename_i hm; rw [hm] at h; exact hQ _ _ h
  · rename_i hm; rw [hm] at h; exact hE _ _ h

theorem Ends.imp (h : Ends m s Q E) (hQ : ∀ a s, Q a s → R a s) : Ends m s R E :=
  h.mono hQ fun _ _ he => he

/-- What is known of the first part is enough. -/
theorem Ends.seq {Q : β → σ → Prop} (h : Ends m s R E) (hf : ∀ a s, R a s → Ends (f a) s Q E) :
    Ends (m >>= f) s Q E :=
  Ends.bind (h.imp hf)

theorem Ends.returns (h : Ends m s Q fun _ _ => False) : Ends m s Q E :=
  h.mono (fun _ _ h => h) fun _ _ he => he.elim

/-! ## Invariants -/

/-- `m` keeps `I` as long as it runs, and leaves `J` where it is broken off. -/
def Keeps (I J : σ → Prop) (m : EStateM ε σ α) : Prop :=
  ∀ s, I s → Ends m s (fun _ => I) fun _ => J

variable {I J : σ → Prop}

theorem Keeps.pure {a : α} : Keeps I J (Pure.pure a : EStateM ε σ α) := by
  intro s h
  exact Ends.pure h

theorem Keeps.throw {e : ε} (h : ∀ s, I s → J s) : Keeps I J (throw e : EStateM ε σ α) := h

theorem Keeps.modify {g : σ → σ} (h : ∀ s, I s → I (g s)) :
    Keeps I J (modify g : EStateM ε σ PUnit) := h

theorem Keeps.bind (hm : Keeps I J m) (hf : ∀ a, Keeps I J (f a)) : Keeps I J (m >>= f) := by
  intro s h
  exact (hm s h).seq hf

/-- The value that is read is the state of a moment at which `I` holds. -/
theorem Keeps.get {f : σ → EStateM ε σ β} (hf : ∀ s, I s → Keeps I J (f s)) :
    Keeps I J (MonadState.get >>= f) := by
  intro s h
  exact Ends.bind (Ends.get (hf s h s h))

theorem Keeps.ite {b : Prop} [Decidable b] {m' : EStateM ε σ α} (hm : Keeps I J m)
    (hm' : Keeps I J m') : Keeps I J (if b then m else m') := by
  split
  · exact hm
  · exact hm'

end Abort
