import Mathlib.Algebra.Ring.Int.Defs
import Mathlib.Data.List.Basic

/-!
# Stepping through an interval

The loop `for (x = start; x < stop; x += step)`, which puts an interval of length `step` at each `x`.

* `steps` — the values of the loop; the number of turns is limited.
* `covers` — a position is in the interval at a value.

Principal results: the loop ends for a positive step (`steps_some`); a position from the start on to
the end is covered once, except for the end itself, where the loop stops in front of it
(`count_eq_one_iff`); two loops in one another cover as their product (`countP_grid`).
-/

namespace Kdm.Steps

def steps (step stop : Int) : Nat → Int → Option (List Int)
  | fuel, x =>
    if x < stop then
      match fuel with
      | 0 => none
      | fuel + 1 => (steps step stop fuel (x + step)).map (x :: ·)
    else some []

/-- The interval at `x` has the position `p`. -/
def covers (step p x : Int) : Bool := x ≤ p && p < x + step

variable {step stop x p : Int} {fuel : Nat} {l : List Int}

theorem steps_end (h : ¬ x < stop) (fuel : Nat) : steps step stop fuel x = some [] := by
  unfold steps
  exact if_neg h

theorem steps_zero (h : x < stop) : steps step stop 0 x = none := by
  unfold steps
  exact if_pos h

theorem steps_succ (h : x < stop) (fuel : Nat) :
    steps step stop (fuel + 1) x = (steps step stop fuel (x + step)).map (x :: ·) := by
  conv_lhs => rw [steps]
  exact if_pos h

theorem steps_some (hstep : 0 < step) (hfuel : stop - x ≤ fuel) :
    ∃ l, steps step stop fuel x = some l := by
  induction fuel generalizing x with
  | zero => exact ⟨[], steps_end (by omega) 0⟩
  | succ fuel ih =>
    by_cases h : x < stop
    · obtain ⟨l, hl⟩ := ih (x := x + step) (by omega)
      exact ⟨x :: l, by rw [steps_succ h, hl, Option.map_some]⟩
    · exact ⟨[], steps_end h _⟩

theorem count_of_lt (hstep : 0 ≤ step) (hl : steps step stop fuel x = some l) (hp : p < x) :
    l.countP (covers step p) = 0 := by
  induction fuel generalizing x l with
  | zero =>
    by_cases h : x < stop
    · rw [steps_zero h] at hl
      cases hl
    · rw [steps_end h] at hl
      cases hl
      rfl
  | succ fuel ih =>
    by_cases h : x < stop
    · rw [steps_succ h] at hl
      obtain ⟨l', hl', rfl⟩ := Option.map_eq_some_iff.mp hl
      have hx : covers step p x = false := by
        simp only [covers, Bool.and_eq_false_iff, decide_eq_false_iff_not]
        omega
      rw [List.countP_cons, ih hl' (by omega), hx]
      rfl
    · rw [steps_end h] at hl
      cases hl
      rfl

theorem emod_le_self {a b : Int} (ha : 0 ≤ a) (hb : 0 < b) : a % b ≤ a := by
  have hq := Int.mul_nonneg (Int.le_of_lt hb) (Int.ediv_nonneg ha (Int.le_of_lt hb))
  have := Int.mul_ediv_add_emod a b
  omega

/-- The value that covers a position, if the loop comes to it. -/
theorem count_of_le (hstep : 0 < step) (hl : steps step stop fuel x = some l) (hp : x ≤ p) :
    l.countP (covers step p) = if p - (p - x) % step < stop then 1 else 0 := by
  induction fuel generalizing x l with
  | zero =>
    by_cases h : x < stop
    · rw [steps_zero h] at hl
      cases hl
    · rw [steps_end h] at hl
      cases hl
      have := emod_le_self (Int.sub_nonneg_of_le hp) hstep
      rw [if_neg (by omega)]
      rfl
  | succ fuel ih =>
    by_cases h : x < stop
    · rw [steps_succ h] at hl
      obtain ⟨l', hl', rfl⟩ := Option.map_eq_some_iff.mp hl
      rw [List.countP_cons]
      by_cases hx : p < x + step
      · have hc : covers step p x = true := by simp [covers, hp, hx]
        rw [count_of_lt (Int.le_of_lt hstep) hl' hx, hc, if_pos rfl,
          Int.emod_eq_of_lt (by omega) (by omega), if_pos (by omega)]
      · have hc : covers step p x = false := by
          simp only [covers, Bool.and_eq_false_iff, decide_eq_false_iff_not]
          omega
        have hmod : (p - (x + step)) % step = (p - x) % step := by
          rw [← Int.sub_sub, Int.sub_emod_right]
        rw [ih hl' (by omega), hc, hmod]
        rfl
    · rw [steps_end h] at hl
      cases hl
      have := emod_le_self (Int.sub_nonneg_of_le hp) hstep
      rw [if_neg (by omega)]
      rfl

/-- **A position up to the end is covered once**, unless it is the end and a value would be there. -/
theorem count_eq_one_iff (hstep : 0 < step) (hl : steps step stop fuel x = some l) (hx : x ≤ p)
    (hp : p ≤ stop) : l.countP (covers step p) = 1 ↔ ¬ (p = stop ∧ step ∣ stop - x) := by
  rw [count_of_le hstep hl hx]
  have h0 := Int.emod_nonneg (p - x) (Int.ne_of_gt hstep)
  constructor
  · rintro h ⟨rfl, hd⟩
    rw [Int.emod_eq_zero_of_dvd hd, if_neg (by omega)] at h
    cases h
  · intro h
    rw [if_pos]
    by_contra hlt
    have hps : p = stop := by omega
    subst hps
    exact h ⟨rfl, Int.dvd_of_emod_eq_zero (by omega)⟩

/-- Nothing is covered by intervals of length 0. -/
theorem count_of_step_zero (p : Int) (l : List Int) : l.countP (covers 0 p) = 0 := by
  rw [List.countP_eq_zero]
  intro x _
  simp only [covers, Bool.and_eq_true, decide_eq_true_eq, not_and]
  omega

/-- Two loops in one another. -/
def grid {α β : Type} (ys : List β) (xs : List α) : List (α × β) :=
  ys.flatMap fun y => xs.map fun x => (x, y)

theorem countP_grid {α β : Type} (P : α → Bool) (Q : β → Bool) (ys : List β) (xs : List α) :
    (grid ys xs).countP (fun t => P t.1 && Q t.2) = ys.countP Q * xs.countP P := by
  induction ys with
  | nil => rw [List.countP_nil, Nat.zero_mul]; rfl
  | cons y ys ih =>
    have hrow : (xs.map fun x => (x, y)).countP (fun t => P t.1 && Q t.2) =
        if Q y then xs.countP P else 0 := by
      rw [List.countP_map]
      cases hq : Q y with
      | true => simp [Function.comp_def, hq]
      | false => simp [Function.comp_def, hq]
    rw [show grid (y :: ys) xs = (xs.map fun x => (x, y)) ++ grid ys xs from rfl,
      List.countP_append, hrow, ih, List.countP_cons, Nat.add_mul, Nat.add_comm]
    cases Q y <;> simp

theorem countP_grid_eq_one {α β : Type} (P : α → Bool) (Q : β → Bool) (ys : List β) (xs : List α) :
    (grid ys xs).countP (fun t => P t.1 && Q t.2) = 1 ↔ xs.countP P = 1 ∧ ys.countP Q = 1 := by
  rw [countP_grid]
  constructor
  · intro h
    exact ⟨Nat.eq_one_of_mul_eq_one_left h, Nat.eq_one_of_mul_eq_one_right h⟩
  · rintro ⟨hx, hy⟩
    rw [hx, hy]

end Kdm.Steps
