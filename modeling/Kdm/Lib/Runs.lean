import Mathlib.Logic.Relation

/-!
# Runs of event machines and guarded paths of actions

Two views of a reactive program that the rest of a development connects by a simulation.

* `Run step init C h s` — an executable machine `step : ε → σ → Option σ` was started in a
  state of `init` and driven by events to `s`; `h` lists the states it left together with the
  events taken there, newest first.  `C` is a side condition that every step of the run meets,
  `fun _ _ => True` for all runs.
* `Path T P a b` — an abstract labelled transition relation `T` leads from `a` to `b` through
  actions that the policy `P` admits in the state where they happen.

Principal results: `Run.invariant` (what every step preserves holds after every run, the
history included), `Path.preserves`, and `Run.simulation`, the rule that carries an invariant
of the guarded actions to every state of the machine.
-/

namespace Runs

variable {σ ε α β : Type*}

/-! ## Machine runs -/

/-- Runs of a machine whose steps all meet `C`, with their history. -/
inductive Run (step : ε → σ → Option σ) (init : σ → Prop) (C : σ → ε → Prop) :
    List (σ × ε) → σ → Prop
  | start {s : σ} : init s → Run step init C [] s
  | next {h : List (σ × ε)} {s s' : σ} {e : ε} :
      Run step init C h s → C s e → step e s = some s' → Run step init C ((s, e) :: h) s'

/-- The states reached by runs whose steps all meet `C`. -/
def Reaches (step : ε → σ → Option σ) (init : σ → Prop) (C : σ → ε → Prop) (s : σ) : Prop :=
  ∃ h, Run step init C h s

/-- Driving the machine with a list of events, as long as the test `ok` lets them pass. -/
def exec (step : ε → σ → Option σ) (ok : σ → ε → Bool) : List ε → σ → Option σ
  | [], s => some s
  | e :: es, s =>
    if ok s e then
      match step e s with
      | some s' => exec step ok es s'
      | none => none
    else none

variable {step : ε → σ → Option σ} {init : σ → Prop} {C D : σ → ε → Prop}

/-- **Run invariants**: a property of histories and states that the start establishes and
every step preserves holds of every run. -/
theorem Run.invariant {I : List (σ × ε) → σ → Prop} (hinit : ∀ s, init s → I [] s)
    (hstep : ∀ h s e s', I h s → C s e → step e s = some s' → I ((s, e) :: h) s')
    {h : List (σ × ε)} {s : σ} (hr : Run step init C h s) : I h s := by
  induction hr with
  | start h0 => exact hinit _ h0
  | next _ hc hs ih => exact hstep _ _ _ _ ih hc hs

theorem Run.mono (hCD : ∀ s e, C s e → D s e) {h : List (σ × ε)} {s : σ}
    (hr : Run step init C h s) : Run step init D h s := by
  induction hr with
  | start h0 => exact .start h0
  | next _ hc hs ih => exact .next ih (hCD _ _ hc) hs

theorem Reaches.invariant {I : σ → Prop} (hinit : ∀ s, init s → I s)
    (hstep : ∀ s e s', I s → C s e → step e s = some s' → I s') {s : σ}
    (hr : Reaches step init C s) : I s := by
  obtain ⟨h, hr⟩ := hr
  exact hr.invariant (I := fun _ s => I s) hinit (fun _ s e s' => hstep s e s')

theorem Reaches.mono (hCD : ∀ s e, C s e → D s e) {s : σ} (hr : Reaches step init C s) :
    Reaches step init D s := by
  obtain ⟨h, hr⟩ := hr
  exact ⟨h, hr.mono hCD⟩

theorem Reaches.next {s s' : σ} {e : ε} (hr : Reaches step init C s) (hc : C s e)
    (hs : step e s = some s') : Reaches step init C s' := by
  obtain ⟨h, hr⟩ := hr
  exact ⟨_, hr.next hc hs⟩

/-- A list of events that the machine and a test for `C` accept continues a run. -/
theorem Reaches.exec {ok : σ → ε → Bool} (hok : ∀ s e, ok s e = true → C s e) {es : List ε} :
    ∀ {s s' : σ}, Reaches step init C s → exec step ok es s = some s' → Reaches step init C s' := by
  induction es with
  | nil => intro s s' hr h; cases h; exact hr
  | cons e es ih =>
    intro s s' hr h
    unfold Runs.exec at h
    split at h
    · rename_i hc
      split at h
      · rename_i s1 h1
        exact ih (hr.next (hok s e hc) h1) h
      · cases h
    · cases h

/-! ## Guarded paths -/

/-- One action that the policy `P` admits. -/
def StepBy (T : α → β → β → Prop) (P : α → β → Prop) (a b : β) : Prop :=
  ∃ x, P x a ∧ T x a b

/-- A finite sequence of actions, each admitted in the state where it happens. -/
def Path (T : α → β → β → Prop) (P : α → β → Prop) : β → β → Prop :=
  Relation.ReflTransGen (StepBy T P)

variable {T : α → β → β → Prop} {P Q : α → β → Prop}

theorem Path.nil (a : β) : Path T P a a := Relation.ReflTransGen.refl

theorem Path.of_eq {a b : β} (h : a = b) : Path T P a b := h ▸ Path.nil a

theorem Path.trans {a b c : β} (h : Path T P a b) (h' : Path T P b c) : Path T P a c :=
  Relation.ReflTransGen.trans h h'

theorem Path.one {a b : β} (x : α) (hp : P x a) (ht : T x a b) : Path T P a b :=
  Relation.ReflTransGen.single ⟨x, hp, ht⟩

theorem Path.then {a b c : β} (h : Path T P a b) (x : α) (hp : P x b) (ht : T x b c) :
    Path T P a c :=
  Relation.ReflTransGen.tail h ⟨x, hp, ht⟩

/-- **What every admitted action preserves, every path preserves.** -/
theorem Path.preserves {I : β → Prop} (hI : ∀ x a b, P x a → T x a b → I a → I b) {a b : β}
    (h : Path T P a b) (ha : I a) : I b := by
  unfold Path at h
  induction h with
  | refl => exact ha
  | tail _ hs ih =>
    obtain ⟨x, hp, ht⟩ := hs
    exact hI x _ _ hp ht ih

theorem Path.mono (hPQ : ∀ x a, P x a → Q x a) {a b : β} (h : Path T P a b) : Path T Q a b := by
  unfold Path at h
  induction h with
  | refl => exact Path.nil _
  | tail _ hs ih =>
    obtain ⟨x, hp, ht⟩ := hs
    exact ih.then x (hPQ x _ hp) ht

/-- Policies may be strengthened by an invariant of the path itself. -/
theorem Path.strengthen {I : β → Prop} (hI : ∀ x a b, P x a → T x a b → I a → I b) {a b : β}
    (h : Path T P a b) (ha : I a) : Path T (fun x a => P x a ∧ I a) a b := by
  unfold Path at h
  induction h with
  | refl => exact Path.nil _
  | @tail b c hab hs ih =>
    obtain ⟨x, hp, ht⟩ := hs
    have hb : I b := Path.preserves hI hab ha
    exact ih.then x ⟨hp, hb⟩ ht

/-! ## Simulation -/

/-- **Simulation rule**: when every machine step that meets `C` is a path of admitted actions
between the abstractions, an invariant of the admitted actions holds of the abstraction of
every state reached under `C`. -/
theorem Reaches.simulation {abs : σ → β} {I : β → Prop} {P : σ → ε → α → β → Prop}
    (hinit : ∀ s, init s → I (abs s))
    (hsim : ∀ s e s', I (abs s) → C s e → step e s = some s' →
      Path T (P s e) (abs s) (abs s'))
    (hI : ∀ s e, I (abs s) → C s e → ∀ x a b, P s e x a → T x a b → I a → I b)
    {s : σ} (hr : Reaches step init C s) : I (abs s) :=
  hr.invariant (I := fun s => I (abs s)) hinit
    (fun s e _ hi hc hs => (hsim s e _ hi hc hs).preserves (hI s e hi hc) hi)

end Runs
