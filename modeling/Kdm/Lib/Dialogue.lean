import Mathlib.Logic.Function.Basic

/-!
# Two processes that talk in turn

Two processes are joined by a pipe in each direction.  A protocol says whose turn it is to speak and
what may be said; each process is a tree of what it says and what it waits for.

* `Script` — a process: it speaks, waits for the other end, waits for the other end or for its user,
  gives up, or has read something it has no use for (`misread`).
* `Follows` — one process keeps to the protocol as long as the other one does.  `Follows.bind` is the
  rule for sequences, `Follows.mono` the one for consequences.
* `Config`, `Step` — both processes with what is on its way between them; any of them may die.

Principal results: if both processes keep to the protocol then neither ever reads a word of another
kind than the one that was sent for it (`InStep.not_misread`), and when both wait it is the turn of
one that also waits for its user (`InStep.waiting`).
-/

namespace Kdm.Dialogue

/-- The two ends. -/
inductive Side
  | server
  | client
deriving DecidableEq

def Side.other : Side → Side
  | .server => .client
  | .client => .server

@[simp] theorem Side.other_other (x : Side) : x.other.other = x := by cases x <;> rfl

@[simp] theorem Side.other_ne (x : Side) : x.other ≠ x := by cases x <;> decide

@[simp] theorem Side.ne_other (x : Side) : x ≠ x.other := x.other_ne.symm

theorem Side.eq_other {x y : Side} (h : x ≠ y) : x = y.other := by
  cases x <;> cases y <;> first | rfl | exact absurd rfl h

/-- Whose turn it is, what a word of that end leads to, and which ends have a user. -/
structure Protocol (σ ι : Type) where
  turn : σ → Side
  next : σ → ι → Option σ
  attended : Side → Prop

/-- A process that exchanges words of `ι` with the other end, has events of `ε` from its user and
results in `α`.  Behind the last word, the other end being closed, it reads `none`. -/
inductive Script (ι ε α : Type) where
  | ret (a : α)
  | say (i : ι) (k : Script ι ε α)
  | hear (k : Option ι → Script ι ε α)
  | poll (listen : Bool) (k : Option ι → Script ι ε α) (on : ε → Bool) (ui : ε → Script ι ε α)
  | halt
  | cut
  | misread

namespace Script

variable {ι ε α β : Type}

def bind : Script ι ε α → (α → Script ι ε β) → Script ι ε β
  | ret a, f => f a
  | say i k, f => say i (k.bind f)
  | hear k, f => hear fun i => (k i).bind f
  | poll listen k on ui, f => poll listen (fun i => (k i).bind f) on fun e => (ui e).bind f
  | halt, _ => halt
  | cut, _ => cut
  | misread, _ => misread

instance instMonad : Monad (Script ι ε) where
  pure := ret
  bind := bind

/-- The process has closed its end: it is through, or has given up. -/
def Closed : Script ι ε α → Prop
  | ret _ => True
  | halt => True
  | _ => False

/-- The process waits. -/
def awaits : Script ι ε α → Bool
  | hear _ => true
  | poll _ _ _ _ => true
  | _ => false

theorem awaits_cases {p : Script ι ε α} (h : p.awaits = true) :
    (∃ k, p = hear k) ∨ ∃ listen k on ui, p = poll listen k on ui := by
  cases p with
  | hear k => exact Or.inl ⟨k, rfl⟩
  | poll listen k on ui => exact Or.inr ⟨listen, k, on, ui, rfl⟩
  | _ => cases h

/-- Every result satisfies `Q`, whatever the process reads. -/
def Returns (Q : α → Prop) : Script ι ε α → Prop
  | ret a => Q a
  | say _ k => Returns Q k
  | hear k => ∀ i, Returns Q (k i)
  | poll _ k _ ui => (∀ i, Returns Q (k i)) ∧ ∀ e, Returns Q (ui e)
  | halt => True
  | cut => True
  | misread => True

theorem Returns.mono {Q R : α → Prop} (hqr : ∀ a, Q a → R a) {p : Script ι ε α}
    (h : p.Returns Q) : p.Returns R := by
  induction p with
  | ret a => exact hqr a h
  | say i k ih => exact ih h
  | hear k ih => exact fun i => ih i (h i)
  | poll listen k on ui ihk ihu => exact ⟨fun i => ihk i (h.1 i), fun e => ihu e (h.2 e)⟩
  | halt => trivial
  | cut => trivial
  | misread => trivial

theorem Returns.bind {Q : β → Prop} {p : Script ι ε α} {f : α → Script ι ε β}
    (h : p.Returns fun a => (f a).Returns Q) : (p.bind f).Returns Q := by
  induction p with
  | ret a => exact h
  | say i k ih => exact ih h
  | hear k ih => exact fun i => ih i (h i)
  | poll listen k on ui ihk ihu => exact ⟨fun i => ihk i (h.1 i), fun e => ihu e (h.2 e)⟩
  | halt => trivial
  | cut => trivial
  | misread => trivial

end Script

/-! ## Keeping to a protocol -/

section Follows

variable {σ ι ε α β : Type} (P : Protocol σ ι) (me : Side)

/-- `me` keeps to the protocol from a state on, and its result satisfies `Q`; the state is `none` once
the other end is known to be closed.  Waiting for the other end alone is right only in its turn. -/
def Follows (Q : α → Option σ → Prop) : Script ι ε α → Option σ → Prop
  | .ret a, o => Q a o
  | .say _ k, none => Follows Q k none
  | .say i k, some s => P.turn s = me ∧ ∃ s', P.next s i = some s' ∧ Follows Q k (some s')
  | .hear k, none => Follows Q (k none) none
  | .hear k, some s => P.turn s ≠ me ∧
      (∀ i s', P.next s i = some s' → Follows Q (k (some i)) (some s')) ∧ Follows Q (k none) none
  | .poll _ k on ui, none => P.attended me ∧ Follows Q (k none) none ∧
      ∀ e, on e = true → Follows Q (ui e) none
  | .poll listen k on ui, some s => P.attended me ∧
      (listen = true → P.turn s ≠ me →
        ∀ i s', P.next s i = some s' → Follows Q (k (some i)) (some s')) ∧
      Follows Q (k none) none ∧ ∀ e, on e = true → Follows Q (ui e) (some s)
  | .halt, _ => True
  | .cut, _ => True
  | .misread, _ => False

variable {P me} {Q R : α → Option σ → Prop} {p : Script ι ε α} {o : Option σ} {s s' : σ} {i : ι}

theorem Follows.mono (hqr : ∀ a o, Q a o → R a o) (h : Follows P me Q p o) :
    Follows P me R p o := by
  induction p generalizing o with
  | ret a => exact hqr a o h
  | say i k ih =>
    cases o with
    | none => exact ih h
    | some s => exact ⟨h.1, h.2.imp fun s' hs => ⟨hs.1, ih hs.2⟩⟩
  | hear k ih =>
    cases o with
    | none => exact ih _ h
    | some s => exact ⟨h.1, fun i s' hs => ih _ (h.2.1 i s' hs), ih _ h.2.2⟩
  | poll listen k on ui ihk ihu =>
    cases o with
    | none => exact ⟨h.1, ihk _ h.2.1, fun e he => ihu e (h.2.2 e he)⟩
    | some s =>
      exact ⟨h.1, fun hl ht i s' hs => ihk _ (h.2.1 hl ht i s' hs), ihk _ h.2.2.1,
        fun e he => ihu e (h.2.2.2 e he)⟩
  | halt => trivial
  | cut => trivial
  | misread => exact h

/-- The rule for sequences. -/
theorem Follows.bind {Q : β → Option σ → Prop} {f : α → Script ι ε β}
    (h : Follows P me (fun a o => Follows P me Q (f a) o) p o) : Follows P me Q (p.bind f) o := by
  induction p generalizing o with
  | ret a => exact h
  | say i k ih =>
    cases o with
    | none => exact ih h
    | some s => exact ⟨h.1, h.2.imp fun s' hs => ⟨hs.1, ih hs.2⟩⟩
  | hear k ih =>
    cases o with
    | none => exact ih _ h
    | some s => exact ⟨h.1, fun i s' hs => ih _ (h.2.1 i s' hs), ih _ h.2.2⟩
  | poll listen k on ui ihk ihu =>
    cases o with
    | none => exact ⟨h.1, ihk _ h.2.1, fun e he => ihu e (h.2.2 e he)⟩
    | some s =>
      exact ⟨h.1, fun hl ht i s' hs => ihk _ (h.2.1 hl ht i s' hs), ihk _ h.2.2.1,
        fun e he => ihu e (h.2.2.2 e he)⟩
  | halt => trivial
  | cut => trivial
  | misread => exact h

theorem Follows.say {k : Script ι ε α} (ht : P.turn s = me) (hn : P.next s i = some s')
    (h : Follows P me Q k (some s')) : Follows P me Q (.say i k) (some s) := ⟨ht, s', hn, h⟩

theorem Follows.not_misread : ¬ Follows P me Q (.misread : Script ι ε α) o := fun h => h

end Follows

/-! ## Processes with variables -/

/-- A process with variables of its own. -/
def Proc (ν ι ε α : Type) : Type := ν → Script ι ε (α × ν)

namespace Proc

variable {ν ι ε α β : Type}

instance instMonad : Monad (Proc ν ι ε) where
  pure a := fun v => .ret (a, v)
  bind p f := fun v => (p v).bind fun r => f r.1 r.2

/-- The variables. -/
def vars : Proc ν ι ε ν := fun v => .ret (v, v)

/-- An assignment. -/
def assign (f : ν → ν) : Proc ν ι ε Unit := fun v => .ret ((), f v)

def send (i : ι) : Proc ν ι ε Unit := fun v => .say i (.ret ((), v))

/-- The next word; at the end the process results in `e`, or gives up. -/
def receive (f : ι → Option α) (e : Option α) : Proc ν ι ε α := fun v => .hear fun
  | some i =>
    match f i with
    | some a => .ret (a, v)
    | none => .misread
  | none =>
    match e with
    | some a => .ret (a, v)
    | none => .halt

/-- The process waits for the next word, as long as `listen` holds, and for its user. -/
def select (listen : ν → Bool) (f : Option ι → Proc ν ι ε α) (on : ν → ε → Bool)
    (ui : ε → Proc ν ι ε α) : Proc ν ι ε α := fun v =>
  .poll (listen v) (fun i => f i v) (on v) fun e => ui e v

def quit : Proc ν ι ε α := fun _ => .halt

/-- The process has read something it has no use for. -/
def confused : Proc ν ι ε α := fun _ => .misread

def goOn : Proc ν ι ε α := fun _ => .cut

/-- Every result satisfies `Q`, whatever the process reads. -/
def Returns (Q : α → ν → Prop) (p : Proc ν ι ε α) (v : ν) : Prop := (p v).Returns fun r => Q r.1 r.2

section Returns

variable {Q R : α → ν → Prop} {p : Proc ν ι ε α} {v : ν}

theorem Returns.bind {Q : β → ν → Prop} {f : α → Proc ν ι ε β}
    (h : Returns (fun a v => Returns Q (f a) v) p v) : Returns Q (p >>= f) v := Script.Returns.bind h

theorem Returns.mono (h : Returns Q p v) (hqr : ∀ a v, Q a v → R a v) : Returns R p v := by
  refine Script.Returns.mono ?_ h
  intro r hr
  exact hqr r.1 r.2 hr

@[simp] theorem returns_pure {a : α} : Returns Q (pure a : Proc ν ι ε α) v ↔ Q a v := Iff.rfl

@[simp] theorem returns_vars {Q : ν → ν → Prop} : Returns Q (vars : Proc ν ι ε ν) v ↔ Q v v := Iff.rfl

@[simp] theorem returns_assign {Q : Unit → ν → Prop} {f : ν → ν} :
    Returns Q (assign f : Proc ν ι ε Unit) v ↔ Q () (f v) := Iff.rfl

@[simp] theorem returns_send {Q : Unit → ν → Prop} {i : ι} :
    Returns Q (send i : Proc ν ι ε Unit) v ↔ Q () v := Iff.rfl

@[simp] theorem returns_map {Q : β → ν → Prop} {f : α → β} :
    Returns Q (f <$> p) v ↔ Returns Q (p >>= fun a => pure (f a)) v := Iff.rfl

@[simp] theorem returns_pure_bind {Q : β → ν → Prop} {a : α} {f : α → Proc ν ι ε β} :
    Returns Q (pure a >>= f) v ↔ Returns Q (f a) v := Iff.rfl

@[simp] theorem returns_vars_bind {Q : β → ν → Prop} {f : ν → Proc ν ι ε β} :
    Returns Q (vars >>= f) v ↔ Returns Q (f v) v := Iff.rfl

@[simp] theorem returns_assign_bind {Q : β → ν → Prop} {g : ν → ν} {f : Unit → Proc ν ι ε β} :
    Returns Q (assign g >>= f) v ↔ Returns Q (f ()) (g v) := Iff.rfl

@[simp] theorem returns_send_bind {Q : β → ν → Prop} {i : ι} {f : Unit → Proc ν ι ε β} :
    Returns Q (send i >>= f) v ↔ Returns Q (f ()) v := Iff.rfl

@[simp] theorem returns_quit : Returns Q (quit : Proc ν ι ε α) v := trivial

@[simp] theorem returns_goOn : Returns Q (goOn : Proc ν ι ε α) v := trivial

theorem returns_receive {f : ι → Option α} {e : Option α} (h : ∀ i a, f i = some a → Q a v)
    (he : ∀ a ∈ e, Q a v) : Returns Q (receive f e : Proc ν ι ε α) v := by
  intro i
  cases i with
  | none =>
    cases e with
    | none => trivial
    | some a => exact he a rfl
  | some i =>
    dsimp only
    split
    · exact h i _ (by assumption)
    · trivial

end Returns

section Keeps

variable {σ : Type} (P : Protocol σ ι) (me : Side)

/-- The process keeps to the protocol from a state on, and ends in `Q`. -/
def Keeps (Q : α → ν → Option σ → Prop) (p : Proc ν ι ε α) (v : ν) (o : Option σ) : Prop :=
  Follows P me (fun r o => Q r.1 r.2 o) (p v) o

variable {P me} {Q R : α → ν → Option σ → Prop} {p : Proc ν ι ε α} {v : ν} {o : Option σ} {s : σ}

theorem Keeps.bind {Q : β → ν → Option σ → Prop} {f : α → Proc ν ι ε β}
    (h : Keeps P me (fun a v o => Keeps P me Q (f a) v o) p v o) : Keeps P me Q (p >>= f) v o :=
  Follows.bind h

theorem Keeps.mono (h : Keeps P me Q p v o) (hqr : ∀ a v o, Q a v o → R a v o) :
    Keeps P me R p v o := Follows.mono (fun r => hqr r.1 r.2) h

@[simp] theorem keeps_pure {a : α} : Keeps P me Q (pure a : Proc ν ι ε α) v o ↔ Q a v o := Iff.rfl

@[simp] theorem keeps_vars {Q : ν → ν → Option σ → Prop} :
    Keeps P me Q (vars : Proc ν ι ε ν) v o ↔ Q v v o := Iff.rfl

@[simp] theorem keeps_assign {Q : Unit → ν → Option σ → Prop} {f : ν → ν} :
    Keeps P me Q (assign f : Proc ν ι ε Unit) v o ↔ Q () (f v) o := Iff.rfl

@[simp] theorem keeps_map {Q : β → ν → Option σ → Prop} {f : α → β} :
    Keeps P me Q (f <$> p) v o ↔ Keeps P me Q (p >>= fun a => pure (f a)) v o := Iff.rfl

@[simp] theorem keeps_pure_bind {Q : β → ν → Option σ → Prop} {a : α} {f : α → Proc ν ι ε β} :
    Keeps P me Q (pure a >>= f) v o ↔ Keeps P me Q (f a) v o := Iff.rfl

@[simp] theorem keeps_vars_bind {Q : β → ν → Option σ → Prop} {f : ν → Proc ν ι ε β} :
    Keeps P me Q (vars >>= f) v o ↔ Keeps P me Q (f v) v o := Iff.rfl

@[simp] theorem keeps_assign_bind {Q : β → ν → Option σ → Prop} {g : ν → ν}
    {f : Unit → Proc ν ι ε β} :
    Keeps P me Q (assign g >>= f) v o ↔ Keeps P me Q (f ()) (g v) o := Iff.rfl

@[simp] theorem keeps_quit : Keeps P me Q (quit : Proc ν ι ε α) v o := by cases o <;> trivial

@[simp] theorem keeps_goOn : Keeps P me Q (goOn : Proc ν ι ε α) v o := by cases o <;> trivial

theorem keeps_send {Q : Unit → ν → Option σ → Prop} {i : ι} (s' : σ) (ht : P.turn s = me)
    (hn : P.next s i = some s') (h : Q () v (some s')) :
    Keeps P me Q (send i : Proc ν ι ε Unit) v (some s) := ⟨ht, s', hn, h⟩

theorem keeps_receive {f : ι → Option α} {e : Option α} (ht : P.turn s ≠ me)
    (h : ∀ i s', P.next s i = some s' → ∃ a, f i = some a ∧ Q a v (some s'))
    (he : ∀ a ∈ e, Q a v none) : Keeps P me Q (receive f e : Proc ν ι ε α) v (some s) := by
  refine ⟨ht, fun i s' hn => ?_, ?_⟩
  · obtain ⟨a, ha, hq⟩ := h i s' hn
    simpa [ha, Follows] using hq
  · cases e with
    | none => trivial
    | some a => exact he a rfl

theorem keeps_select {listen : ν → Bool} {f : Option ι → Proc ν ι ε α} {on : ν → ε → Bool}
    {ui : ε → Proc ν ι ε α} (ha : P.attended me)
    (hf : listen v = true → P.turn s ≠ me →
      ∀ i s', P.next s i = some s' → Keeps P me Q (f (some i)) v (some s'))
    (he : Keeps P me Q (f none) v none)
    (hui : ∀ e, on v e = true → Keeps P me Q (ui e) v (some s)) :
    Keeps P me Q (select listen f on ui) v (some s) := ⟨ha, hf, he, hui⟩

end Keeps

end Proc

/-! ## Both processes -/

section Runs

variable {σ ι ε : Type} {α : Side → Type}

/-- The processes, and for each of them what is on its way to it. -/
structure Config (ι ε : Type) (α : Side → Type) where
  proc : (x : Side) → Script ι ε (α x)
  inbox : Side → List ι

/-- One process moves. -/
inductive Step : Config ι ε α → Config ι ε α → Prop
  | say {c : Config ι ε α} {x : Side} {i : ι} {k : Script ι ε (α x)} (h : c.proc x = .say i k) :
      Step c ⟨Function.update c.proc x k,
        Function.update c.inbox x.other (c.inbox x.other ++ [i])⟩
  | hear {c : Config ι ε α} {x : Side} {k : Option ι → Script ι ε (α x)} {i : ι} {q : List ι}
      (h : c.proc x = .hear k) (hq : c.inbox x = i :: q) :
      Step c ⟨Function.update c.proc x (k (some i)), Function.update c.inbox x q⟩
  | hearEnd {c : Config ι ε α} {x : Side} {k : Option ι → Script ι ε (α x)}
      (h : c.proc x = .hear k) (hq : c.inbox x = []) (hc : (c.proc x.other).Closed) :
      Step c ⟨Function.update c.proc x (k none), c.inbox⟩
  | poll {c : Config ι ε α} {x : Side} {k : Option ι → Script ι ε (α x)} {on : ε → Bool}
      {ui : ε → Script ι ε (α x)} {i : ι} {q : List ι} (h : c.proc x = .poll true k on ui)
      (hq : c.inbox x = i :: q) :
      Step c ⟨Function.update c.proc x (k (some i)), Function.update c.inbox x q⟩
  | pollEnd {c : Config ι ε α} {x : Side} {k : Option ι → Script ι ε (α x)} {on : ε → Bool}
      {ui : ε → Script ι ε (α x)} (h : c.proc x = .poll true k on ui)
      (hq : c.inbox x = []) (hc : (c.proc x.other).Closed) :
      Step c ⟨Function.update c.proc x (k none), c.inbox⟩
  | user {c : Config ι ε α} {x : Side} {listen : Bool} {k : Option ι → Script ι ε (α x)}
      {on : ε → Bool} {ui : ε → Script ι ε (α x)} (e : ε) (h : c.proc x = .poll listen k on ui)
      (he : on e = true) : Step c ⟨Function.update c.proc x (ui e), c.inbox⟩
  | die {c : Config ι ε α} (x : Side) : Step c ⟨Function.update c.proc x .halt, c.inbox⟩

/-- What can come of a configuration. -/
inductive Reached (c : Config ι ε α) : Config ι ε α → Prop
  | refl : Reached c c
  | step {d e : Config ι ε α} (h : Reached c d) (hs : Step d e) : Reached c e

/-- One process moves, without its user. -/
def Config.move (c : Config ι ε α) (x : Side) : Config ι ε α :=
  match c.proc x, c.inbox x with
  | .say i k, _ => ⟨Function.update c.proc x k,
      Function.update c.inbox x.other (c.inbox x.other ++ [i])⟩
  | .hear k, i :: q => ⟨Function.update c.proc x (k (some i)), Function.update c.inbox x q⟩
  | .poll true k _ _, i :: q => ⟨Function.update c.proc x (k (some i)), Function.update c.inbox x q⟩
  | _, _ => c

/-- The user of a process does something, if he may. -/
def Config.event (c : Config ι ε α) (x : Side) (e : ε) : Config ι ε α :=
  match c.proc x with
  | .poll _ _ on ui => if on e then ⟨Function.update c.proc x (ui e), c.inbox⟩ else c
  | _ => c

/-- The processes move by turns, `n` times. -/
def Config.moves : Nat → Config ι ε α → Config ι ε α
  | 0, c => c
  | n + 1, c => ((c.move .server).move .client).moves n

theorem Reached.trans {c d e : Config ι ε α} (h : Reached c d) (h' : Reached d e) : Reached c e := by
  induction h' with
  | refl => exact h
  | step _ hs ih => exact ih.step hs

theorem reached_move (c : Config ι ε α) (x : Side) : Reached c (c.move x) := by
  unfold Config.move
  split
  · exact .step .refl (.say ‹_›)
  · exact .step .refl (.hear ‹_› ‹_›)
  · exact .step .refl (.poll ‹_› ‹_›)
  · exact .refl

theorem reached_event (c : Config ι ε α) (x : Side) (e : ε) : Reached c (c.event x e) := by
  unfold Config.event
  split
  · split
    · exact .step .refl (.user e ‹_› ‹_›)
    · exact .refl
  · exact .refl

theorem reached_moves (n : Nat) (c : Config ι ε α) : Reached c (c.moves n) := by
  induction n generalizing c with
  | zero => exact .refl
  | succ n ih => exact ((reached_move c .server).trans (reached_move _ .client)).trans (ih _)

variable (P : Protocol σ ι)

/-- The words `q` of `x` lead from `s` to `t`. -/
def Ahead (x : Side) : List ι → σ → σ → Prop
  | [], s, t => s = t
  | i :: q, s, t => P.turn s = x ∧ ∃ s', P.next s i = some s' ∧ Ahead x q s' t

variable {P} {Q : (x : Side) → α x → Option σ → Prop} {c d : Config ι ε α} {x : Side} {s t u : σ}
  {i : ι} {q : List ι}

@[simp] theorem ahead_nil : Ahead P x [] s t ↔ s = t := Iff.rfl

@[simp] theorem ahead_cons : Ahead P x (i :: q) s t ↔
    P.turn s = x ∧ ∃ s', P.next s i = some s' ∧ Ahead P x q s' t := Iff.rfl

theorem ahead_snoc (h : Ahead P x q s t) (ht : P.turn t = x) (hn : P.next t i = some u) :
    Ahead P x (q ++ [i]) s u := by
  induction q generalizing s with
  | nil =>
    obtain rfl : s = t := h
    exact ⟨ht, u, hn, rfl⟩
  | cons j q ih => exact ⟨h.1, h.2.imp fun s' hs => ⟨hs.1, ih hs.2⟩⟩

/-- How the states of the two ends hang together: both are known, and one end has nothing on its way to
it; or `x` is known, the other end is closed, and what it said is right; or `x` has read to the end. -/
inductive Linked (P : Protocol σ ι) (c : Config ι ε α) (o : Side → Option σ) : Prop
  | both (x : Side) (s t : σ) (hs : o x = some s) (ht : o x.other = some t)
      (ha : Ahead P x.other (c.inbox x) s t) (hi : c.inbox x.other = [])
  | one (x : Side) (s t : σ) (hs : o x = some s) (ha : Ahead P x.other (c.inbox x) s t)
      (hc : (c.proc x.other).Closed)
  | alone (x : Side) (hs : o x = none) (hi : c.inbox x = []) (hc : (c.proc x.other).Closed)

/-- **The invariant**: each process keeps to the protocol from its own state on. -/
structure InStep (P : Protocol σ ι) (Q : (x : Side) → α x → Option σ → Prop) (c : Config ι ε α)
    (o : Side → Option σ) : Prop where
  follows : ∀ x, Follows P x (Q x) (c.proc x) (o x)
  linked : Linked P c o

variable {o : Side → Option σ}

/-- Nothing is on its way to an end whose turn it is. -/
theorem ahead_nil_of_turn (h : Ahead P x.other q s t) (ht : P.turn s = x) : q = [] ∧ s = t := by
  cases q with
  | nil => exact ⟨rfl, h⟩
  | cons j q => exact absurd (h.1.symm.trans ht) x.other_ne

/-- The end that a process speaks to, or that has gone, plays no part in what the process does. -/
theorem follows_update (hf : ∀ y, Follows P y (Q y) (c.proc y) (o y)) (p : Script ι ε (α x))
    {u : Option σ} (hp : Follows P x (Q x) p u) (y : Side) :
    Follows P y (Q y) (Function.update c.proc x p y) (Function.update o x u y) := by
  by_cases hy : y = x
  · subst hy
    simpa using hp
  · simpa [hy] using hf y

theorem closed_update (p : Script ι ε (α x)) (hc : (c.proc x.other).Closed) :
    (Function.update c.proc x p x.other).Closed := by simpa using hc

/-- A process that is closed does nothing of its own. -/
theorem eq_of_closed {y : Side} (hc : (c.proc x.other).Closed) (hy : ¬ (c.proc y).Closed) :
    y = x := by
  by_contra hne
  exact hy (Side.eq_other hne ▸ hc)

/-- A process speaks. -/
theorem InStep.say {k : Script ι ε (α x)} (h : InStep P Q c o) (hx : c.proc x = .say i k) :
    ∃ o', InStep P Q ⟨Function.update c.proc x k,
      Function.update c.inbox x.other (c.inbox x.other ++ [i])⟩ o' := by
  have hopen : ¬ (c.proc x).Closed := by rw [hx]; exact id
  have hf := hx ▸ h.follows x
  cases hox : o x with
  | none =>
    rw [hox] at hf
    refine ⟨Function.update o x none, follows_update h.follows k hf, ?_⟩
    obtain ⟨y, s, t, hs, ht, -, -⟩ | ⟨y, s, t, hs, -, hc⟩ | ⟨y, -, hi, hc⟩ := h.linked
    · by_cases hy : x = y
      · rw [← hy, hox] at hs
        cases hs
      · rw [← Side.eq_other hy, hox] at ht
        cases ht
    · rw [← eq_of_closed hc hopen, hox] at hs
      cases hs
    · obtain rfl := eq_of_closed hc hopen
      exact .alone x (by simp) (by simpa using hi) (closed_update k hc)
  | some s =>
    rw [hox] at hf
    obtain ⟨hturn, s', hnext, hk⟩ := hf
    refine ⟨Function.update o x (some s'), follows_update h.follows k hk, ?_⟩
    obtain ⟨y, a, t, ha, ht, hahead, hi⟩ | ⟨y, a, t, ha, hahead, hc⟩ | ⟨y, ha, -, hc⟩ := h.linked
    · by_cases hy : x = y
      · subst hy
        cases hox.symm.trans ha
        obtain ⟨hq, rfl⟩ := ahead_nil_of_turn hahead hturn
        refine .both x.other s s' (by simpa using ht) (by simp) ?_ (by simpa using hq)
        simp [hi, hturn, hnext]
      · have hxy := Side.eq_other hy
        subst hxy
        cases hox.symm.trans ht
        refine .both y a s' (by simpa using ha) (by simp) ?_ (by simpa using hi)
        simpa using ahead_snoc hahead hturn hnext
    · obtain rfl := eq_of_closed hc hopen
      cases hox.symm.trans ha
      obtain ⟨hq, rfl⟩ := ahead_nil_of_turn hahead hturn
      refine .one x s' s' (by simp) ?_ (closed_update k hc)
      simp [hq]
    · obtain rfl := eq_of_closed hc hopen
      cases hox.symm.trans ha

/-- A process hears a word: it is one that the protocol has for its state. -/
theorem InStep.heard (h : InStep P Q c o) (hopen : ¬ (c.proc x).Closed)
    (hq : c.inbox x = i :: q) : ∃ s s', o x = some s ∧ P.turn s ≠ x ∧ P.next s i = some s' ∧
      ∀ p : Script ι ε (α x), Follows P x (Q x) p (some s') →
        InStep P Q ⟨Function.update c.proc x p, Function.update c.inbox x q⟩
          (Function.update o x (some s')) := by
  obtain ⟨y, s, t, hs, ht, ha, hi⟩ | ⟨y, s, t, hs, ha, hc⟩ | ⟨y, -, hi, hc⟩ := h.linked
  · have hxy : x = y := by
      by_contra hne
      rw [← Side.eq_other hne, hq] at hi
      cases hi
    subst hxy
    rw [hq] at ha
    obtain ⟨hturn, s', hnext, ha⟩ := ha
    refine ⟨s, s', hs, hturn ▸ x.other_ne, hnext, fun p hp => ⟨follows_update h.follows p hp, ?_⟩⟩
    exact .both x s' t (by simp) (by simpa using ht) (by simpa using ha) (by simpa using hi)
  · obtain rfl := eq_of_closed hc hopen
    rw [hq] at ha
    obtain ⟨hturn, s', hnext, ha⟩ := ha
    refine ⟨s, s', hs, hturn ▸ x.other_ne, hnext, fun p hp => ⟨follows_update h.follows p hp, ?_⟩⟩
    exact .one x s' t (by simp) (by simpa using ha) (closed_update p hc)
  · obtain rfl := eq_of_closed hc hopen
    rw [hq] at hi
    cases hi

/-- A process reads to the end. -/
theorem InStep.ended (h : InStep P Q c o) (hq : c.inbox x = []) (hc : (c.proc x.other).Closed)
    (p : Script ι ε (α x)) (hp : Follows P x (Q x) p none) :
    InStep P Q ⟨Function.update c.proc x p, c.inbox⟩ (Function.update o x none) :=
  ⟨follows_update h.follows p hp, .alone x (by simp) hq (closed_update p hc)⟩

/-- A process does something of its own. -/
theorem InStep.silent (h : InStep P Q c o) (p : Script ι ε (α x)) (hp : Follows P x (Q x) p (o x))
    (hclosed : (c.proc x).Closed → p.Closed) :
    InStep P Q ⟨Function.update c.proc x p, c.inbox⟩ o := by
  have hkeep : ∀ y, (c.proc y).Closed → (Function.update c.proc x p y).Closed := by
    intro y hy
    by_cases hyx : y = x
    · subst hyx
      simpa using hclosed hy
    · simpa [hyx] using hy
  refine ⟨?_, ?_⟩
  · simpa using follows_update h.follows p hp
  · obtain ⟨y, s, t, hs, ht, ha, hi⟩ | ⟨y, s, t, hs, ha, hc⟩ | ⟨y, hs, hi, hc⟩ := h.linked
    · exact .both y s t hs ht ha hi
    · exact .one y s t hs ha (hkeep _ hc)
    · exact .alone y hs hi (hkeep _ hc)

/-- One move of a process keeps the invariant. -/
theorem InStep.step (h : InStep P Q c o) (hs : Step c d) : ∃ o', InStep P Q d o' := by
  cases hs with
  | say hx => exact h.say hx
  | @hear x k i q hx hq =>
    obtain ⟨s, s', ho, -, hn, hp⟩ := h.heard (by rw [hx]; exact id) hq
    have hf := hx ▸ ho ▸ h.follows x
    exact ⟨_, hp _ (hf.2.1 i s' hn)⟩
  | @hearEnd x k hx hq hc =>
    have hf := hx ▸ h.follows x
    refine ⟨_, h.ended hq hc _ ?_⟩
    cases ho : o x with
    | none => exact (ho ▸ hf : Follows P x (Q x) (.hear k) none)
    | some s => exact (ho ▸ hf : Follows P x (Q x) (.hear k) (some s)).2.2
  | @poll x k on ui i q hx hq =>
    obtain ⟨s, s', ho, ht, hn, hp⟩ := h.heard (by rw [hx]; exact id) hq
    have hf := hx ▸ ho ▸ h.follows x
    exact ⟨_, hp _ (hf.2.1 rfl ht i s' hn)⟩
  | @pollEnd x k on ui hx hq hc =>
    have hf := hx ▸ h.follows x
    refine ⟨_, h.ended hq hc _ ?_⟩
    cases ho : o x with
    | none => exact (ho ▸ hf : Follows P x (Q x) (.poll true k on ui) none).2.1
    | some s => exact (ho ▸ hf : Follows P x (Q x) (.poll true k on ui) (some s)).2.2.1
  | @user x listen k on ui e hx he =>
    have hf := hx ▸ h.follows x
    refine ⟨o, h.silent _ ?_ (by rw [hx]; exact False.elim)⟩
    cases ho : o x with
    | none => exact (ho ▸ hf : Follows P x (Q x) (.poll listen k on ui) none).2.2 e he
    | some s => exact (ho ▸ hf : Follows P x (Q x) (.poll listen k on ui) (some s)).2.2.2 e he
  | @die x =>
    refine ⟨o, h.silent .halt ?_ fun _ => trivial⟩
    cases o x <;> trivial

theorem InStep.reached (h : InStep P Q c o) (hr : Reached c d) : ∃ o', InStep P Q d o' := by
  induction hr with
  | refl => exact ⟨o, h⟩
  | step _ hs ih => exact ih.elim fun o' h' => h'.step hs

/-- Both processes keep to the protocol from the beginning. -/
theorem inStep_start {s : σ} {p : (x : Side) → Script ι ε (α x)}
    (hp : ∀ x, Follows P x (Q x) (p x) (some s)) : InStep P Q ⟨p, fun _ => []⟩ fun _ => some s :=
  ⟨hp, .both .server s s rfl rfl rfl rfl⟩

/-- **No process reads what was not meant for that read.** -/
theorem InStep.not_misread (h : InStep P Q c o) (x : Side) : c.proc x ≠ .misread := by
  intro hx
  exact Follows.not_misread (hx ▸ h.follows x)

theorem InStep.result {a : α x} (h : InStep P Q c o) (hx : c.proc x = .ret a) :
    Q x a (o x) := by
  have hf := h.follows x
  rw [hx] at hf
  exact hf

/-- The process waits for a word of the other end, or for one and its user. -/
def Waits (c : Config ι ε α) (x : Side) : Prop := c.inbox x = [] ∧ (c.proc x).awaits = true

/-- **No deadlock**: when both wait it is the turn of one of them, and that one waits for its user. -/
theorem InStep.waiting (h : InStep P Q c o) (hw : ∀ x, Waits c x) :
    ∃ x s listen k on ui, P.attended x ∧ o x = some s ∧ o x.other = some s ∧ P.turn s = x ∧
      c.proc x = .poll listen k on ui := by
  have hopen : ∀ x, ¬ (c.proc x).Closed := by
    intro x hc
    obtain ⟨k, hk⟩ | ⟨l, k, on, ui, hk⟩ := Script.awaits_cases (hw x).2
    · rw [hk] at hc
      exact hc
    · rw [hk] at hc
      exact hc
  obtain ⟨y, s, t, hs, ht, ha, -⟩ | ⟨y, s, t, -, -, hc⟩ | ⟨y, -, -, hc⟩ := h.linked
  · obtain rfl : s = t := by
      rw [(hw y).1] at ha
      exact ha
    have hboth : ∀ x, o x = some s := by
      intro x
      by_cases hx : x = y
      · exact hx ▸ hs
      · exact Side.eq_other hx ▸ ht
    have hturn := hboth (P.turn s)
    obtain ⟨k, hk⟩ | ⟨l, k, on, ui, hk⟩ := Script.awaits_cases (hw (P.turn s)).2
    · have hf := hk ▸ hturn ▸ h.follows (P.turn s)
      exact absurd rfl hf.1
    · have hf := hk ▸ hturn ▸ h.follows (P.turn s)
      exact ⟨P.turn s, s, l, k, on, ui, hf.1, hturn, hboth _, rfl, hk⟩
  · exact absurd hc (hopen _)
  · exact absurd hc (hopen _)

end Runs

end Kdm.Dialogue
