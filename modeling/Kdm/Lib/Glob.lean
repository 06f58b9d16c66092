import Mathlib.Data.List.Basic

/-!
# Glob patterns

Patterns of stars, wildcards and letters over any alphabet, with any relation as the comparison of
letters.  A star stands for any word, a wildcard for any letter.

Principal results: `matches_append_iff`, `matches_star_iff`, `matches_nil_iff`.
-/

namespace Glob

inductive Tok (α : Type*) where
  | star
  | any
  | lit (a : α)
  deriving DecidableEq

variable {α : Type*} (r : α → α → Prop)

/-- The word is in the language of the pattern. -/
inductive Matches : List (Tok α) → List α → Prop where
  | nil : Matches [] []
  | skip {p : List (Tok α)} {s : List α} (h : Matches p s) : Matches (.star :: p) s
  | take (a : α) {p : List (Tok α)} {s : List α} (h : Matches (.star :: p) s) :
      Matches (.star :: p) (a :: s)
  | any (a : α) {p : List (Tok α)} {s : List α} (h : Matches p s) : Matches (.any :: p) (a :: s)
  | lit {b a : α} {p : List (Tok α)} {s : List α} (hr : r b a) (h : Matches p s) :
      Matches (.lit b :: p) (a :: s)

variable {r} {p q : List (Tok α)} {s t : List α} {a b : α}

@[simp] theorem matches_nil_left : Matches r [] s ↔ s = [] := by
  constructor
  · rintro ⟨⟩
    rfl
  · rintro rfl
    exact .nil

@[simp] theorem matches_any_cons : Matches r (.any :: p) (a :: s) ↔ Matches r p s := by
  constructor
  · rintro ⟨⟩
    assumption
  · exact .any a

@[simp] theorem matches_lit_cons : Matches r (.lit b :: p) (a :: s) ↔ r b a ∧ Matches r p s := by
  constructor
  · intro h
    cases h with
    | lit hr h => exact ⟨hr, h⟩
  · rintro ⟨hr, h⟩
    exact .lit hr h

@[simp] theorem not_matches_any_nil : ¬ Matches r (.any :: p) [] := by rintro ⟨⟩

@[simp] theorem not_matches_lit_nil : ¬ Matches r (.lit b :: p) [] := by rintro ⟨⟩

/-- A star takes the beginning of the word. -/
theorem matches_star_iff :
    Matches r (.star :: p) s ↔ ∃ s₁ s₂, s = s₁ ++ s₂ ∧ Matches r p s₂ := by
  constructor
  · intro h
    generalize hq : Tok.star :: p = q at h
    induction h with
    | nil => cases hq
    | skip h =>
      cases hq
      exact ⟨[], _, rfl, h⟩
    | take a _ ih =>
      obtain ⟨s₁, s₂, rfl, h⟩ := ih hq
      exact ⟨a :: s₁, s₂, rfl, h⟩
    | any => cases hq
    | lit => cases hq
  · rintro ⟨s₁, s₂, rfl, h⟩
    induction s₁ with
    | nil => exact .skip h
    | cons a s₁ ih => exact .take a ih

/-- The parts of a pattern match the parts of the word. -/
theorem matches_append_iff :
    Matches r (p ++ q) s ↔ ∃ s₁ s₂, s = s₁ ++ s₂ ∧ Matches r p s₁ ∧ Matches r q s₂ := by
  constructor
  · intro h
    generalize hpq : p ++ q = pq at h
    induction h generalizing p with
    | nil =>
      obtain ⟨rfl, rfl⟩ := List.append_eq_nil_iff.mp hpq
      exact ⟨[], [], rfl, .nil, .nil⟩
    | @skip p' s h ih =>
      cases p with
      | nil => exact ⟨[], s, rfl, .nil, by rw [← List.nil_append q, hpq]; exact .skip h⟩
      | cons x p =>
        obtain ⟨rfl, rfl⟩ := List.cons.inj hpq
        obtain ⟨s₁, s₂, rfl, h₁, h₂⟩ := ih rfl
        exact ⟨s₁, s₂, rfl, .skip h₁, h₂⟩
    | @take a p' s h ih =>
      cases p with
      | nil => exact ⟨[], a :: s, rfl, .nil, by rw [← List.nil_append q, hpq]; exact .take a h⟩
      | cons x p =>
        obtain ⟨s₁, s₂, rfl, h₁, h₂⟩ := ih hpq
        obtain ⟨rfl, rfl⟩ := List.cons.inj hpq
        exact ⟨a :: s₁, s₂, rfl, .take a h₁, h₂⟩
    | @any a p' s h ih =>
      cases p with
      | nil => exact ⟨[], a :: s, rfl, .nil, by rw [← List.nil_append q, hpq]; exact .any a h⟩
      | cons x p =>
        obtain ⟨rfl, rfl⟩ := List.cons.inj hpq
        obtain ⟨s₁, s₂, rfl, h₁, h₂⟩ := ih rfl
        exact ⟨a :: s₁, s₂, rfl, .any a h₁, h₂⟩
    | @lit b a p' s hr h ih =>
      cases p with
      | nil => exact ⟨[], a :: s, rfl, .nil, by rw [← List.nil_append q, hpq]; exact .lit hr h⟩
      | cons x p =>
        obtain ⟨rfl, rfl⟩ := List.cons.inj hpq
        obtain ⟨s₁, s₂, rfl, h₁, h₂⟩ := ih rfl
        exact ⟨a :: s₁, s₂, rfl, .lit hr h₁, h₂⟩
  · rintro ⟨s₁, s₂, rfl, h₁, h₂⟩
    induction h₁ with
    | nil => exact h₂
    | skip _ ih => exact .skip ih
    | take a _ ih => exact .take a ih
    | any a _ ih => exact .any a ih
    | lit hr _ ih => exact .lit hr ih

/-- The empty word is matched by stars only. -/
theorem matches_nil_iff : Matches r p [] ↔ ∀ x ∈ p, x = Tok.star := by
  induction p with
  | nil => simp
  | cons x p ih =>
    rw [List.forall_mem_cons]
    cases x with
    | star =>
      rw [matches_star_iff, ← ih]
      constructor
      · rintro ⟨s₁, s₂, hs, h⟩
        obtain ⟨-, rfl⟩ := List.append_eq_nil_iff.mp hs.symm
        exact ⟨rfl, h⟩
      · rintro ⟨-, h⟩
        exact ⟨[], [], rfl, h⟩
    | any => simp
    | lit b => simp

end Glob
