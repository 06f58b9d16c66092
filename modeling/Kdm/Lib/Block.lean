import Mathlib.Data.List.Basic

/-!
# A pointer into a block of memory

A pointer is what is left of the block from there on.  Behind the block nothing can be read.

* `advance f p` — a loop that moves the pointer as long as `f` holds of what it points to.
* `upto cb p` — what is between two pointers.

Principal result: `advance_append`, the loop stops at the first item that it must stop at, and
`advance_eq_none_iff`, it leaves the block if there is none.
-/

namespace Block

variable {α : Type*} {f : α → Bool} {p q : List α}

/-- `for (; f(*p); p++);` -/
def advance (f : α → Bool) : List α → Option (List α)
  | [] => none
  | c :: p => if f c then advance f p else some (c :: p)

theorem advance_cons (c : α) (p : List α) :
    advance f (c :: p) = if f c then advance f p else some (c :: p) := rfl

/-- What is between the pointers `cb` and `p`. -/
def upto (cb p : List α) : List α := cb.take (cb.length - p.length)

@[simp] theorem upto_append (a p : List α) : upto (a ++ p) p = a := by
  unfold upto
  rw [List.length_append, Nat.add_sub_cancel, List.take_left]

/-- What the loop moves over may be cut off. -/
theorem advance_append_left {a : List α} (ha : ∀ x ∈ a, f x = true) (p : List α) :
    advance f (a ++ p) = advance f p := by
  induction a with
  | nil => rfl
  | cons x a ih =>
    rw [List.cons_append, advance_cons, if_pos (ha x List.mem_cons_self)]
    exact ih fun y hy => ha y (List.mem_cons_of_mem x hy)

/-- The loop in the part of the block before an item that it stops at. -/
theorem advance_dropWhile {c : α} (hc : f c = false) (a p : List α) :
    advance f (a ++ c :: p) = some (a.dropWhile f ++ c :: p) := by
  induction a with
  | nil =>
    rw [List.nil_append, advance_cons, hc]
    rfl
  | cons x a ih =>
    rw [List.cons_append, advance_cons]
    split
    · rename_i hx
      rw [List.dropWhile_cons_of_pos hx, ih]
    · rename_i hx
      rw [List.dropWhile_cons_of_neg hx]
      rfl

theorem advance_append {a : List α} {c : α} (ha : ∀ x ∈ a, f x = true) (hc : f c = false)
    (p : List α) : advance f (a ++ c :: p) = some (c :: p) := by
  rw [advance_append_left ha, advance_cons, hc]
  rfl

theorem advance_eq_some (h : advance f p = some q) :
    ∃ a c r, q = c :: r ∧ p = a ++ c :: r ∧ (∀ x ∈ a, f x = true) ∧ f c = false := by
  induction p with
  | nil => cases h
  | cons x p ih =>
    rw [advance_cons] at h
    split at h
    · rename_i hx
      obtain ⟨a, c, r, hq, hp, ha, hc⟩ := ih h
      refine ⟨x :: a, c, r, hq, by rw [hp]; rfl, ?_, hc⟩
      intro y hy
      rcases List.mem_cons.mp hy with rfl | hy
      · exact hx
      · exact ha y hy
    · rename_i hx
      cases h
      exact ⟨[], x, p, rfl, rfl, by simp, by simpa using hx⟩

/-- **A loop leaves the block exactly if there is nothing in it to stop at.** -/
theorem advance_eq_none_iff : advance f p = none ↔ ∀ x ∈ p, f x = true := by
  induction p with
  | nil => exact iff_of_true rfl (by simp)
  | cons x p ih =>
    rw [advance_cons, List.forall_mem_cons]
    split
    · rename_i hx
      rw [ih]
      exact (and_iff_right hx).symm
    · rename_i hx
      exact iff_of_false (by simp) fun h => hx h.1

/-- A loop that stops at `c` does not leave a block with `c` in it. -/
theorem advance_of_mem {c : α} (hp : c ∈ p) (hc : f c = false) :
    ∃ a d q, p = a ++ d :: q ∧ (∀ x ∈ a, f x = true) ∧ advance f p = some (d :: q) ∧ c ∈ d :: q := by
  cases h : advance f p with
  | none =>
    rw [advance_eq_none_iff.mp h c hp] at hc
    cases hc
  | some q =>
    obtain ⟨a, d, q, rfl, rfl, ha, -⟩ := advance_eq_some h
    refine ⟨a, d, q, rfl, ha, rfl, (List.mem_append.mp hp).resolve_left fun hm => ?_⟩
    rw [ha c hm] at hc
    cases hc

theorem length_advance (h : advance f p = some q) : q.length ≤ p.length := by
  obtain ⟨a, c, r, rfl, rfl, -, -⟩ := advance_eq_some h
  rw [List.length_append]
  exact Nat.le_add_left _ _

end Block
