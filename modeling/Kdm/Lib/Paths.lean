import Mathlib.Logic.Relation

/-!
# Paths of a given length

Paths of a relation that start at an element, by their length.  A search that gives up at some depth
sees whether there is a path of that length.

Principal result: `path_of_cycle`.
-/

namespace Paths

variable {α : Type*} {r : α → α → Prop} {a b : α} {m n : Nat}

/-- A path of `n` steps starts here. -/
inductive Path (r : α → α → Prop) : Nat → α → Prop where
  | start (a : α) : Path r 0 a
  | step {a b : α} {n : Nat} (h : r a b) (hp : Path r n b) : Path r (n + 1) a

theorem path_succ_iff : Path r (n + 1) a ↔ ∃ b, r a b ∧ Path r n b := by
  constructor
  · rintro (_ | ⟨h, hp⟩)
    exact ⟨_, h, hp⟩
  · rintro ⟨b, h, hp⟩
    exact .step h hp

/-- The beginning of a path is a path. -/
theorem Path.shorter (h : Path r n a) (hmn : m ≤ n) : Path r m a := by
  induction h generalizing m with
  | start a =>
    cases Nat.le_zero.mp hmn
    exact .start a
  | step h _ ih =>
    cases m with
    | zero => exact .start _
    | succ m => exact .step h (ih (Nat.le_of_succ_le_succ hmn))

/-- What can be reached in steps is in front of the paths from there. -/
theorem Path.behind (h : Relation.ReflTransGen r a b) (hp : Path r n b) : Path r n a := by
  induction h using Relation.ReflTransGen.head_induction_on with
  | refl => exact hp
  | head h _ ih => exact (Path.step h ih).shorter (Nat.le_succ n)

theorem Path.longer (h : Relation.TransGen r a b) (hp : Path r n b) : Path r (n + 1) a := by
  obtain ⟨c, hc, hb⟩ := Relation.TransGen.head'_iff.mp h
  exact .step hc (hp.behind hb)

/-- **In front of a cycle there are paths of all lengths.** -/
theorem path_of_cycle (h : Relation.ReflTransGen r a b) (hc : Relation.TransGen r b b) (n : Nat) :
    Path r n a := by
  have hb : ∀ n, Path r n b := by
    intro n
    induction n with
    | zero => exact .start b
    | succ n ih => exact ih.longer hc
  exact (hb n).behind h

end Paths
