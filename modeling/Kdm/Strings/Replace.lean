import Mathlib.Data.BitVec
import Mathlib.Data.List.Infix
import Mathlib.Tactic.LinearCombination

/-!
# Replacing in a string

`replaceInString` of `util.c` looks for a text twice: the first loop counts how often it is there,
for the length of the result, and the second one stores the result.

* `allocated` — the length, computed in a `size_t` and kept in an `int`.
* `stored` — what the second loop stores.
* `Replaced` — what the result is: the leftmost occurrence is replaced, and what is behind it goes on
  in the same way.

Principal result: `exact_iff`.  The result is right and has the allocated length exactly when an
`int` can hold its length.
-/

namespace Kdm.Replace

abbrev Text := List UInt8

/-- `strstr`: the string from the first occurrence on. -/
def strstr (before : Text) : Text → Option Text
  | [] => if before <+: [] then some [] else none
  | c :: s => if before <+: c :: s then some (c :: s) else strstr before s

variable {before after s q r r' : Text}

theorem strstr_begins (h : strstr before s = some q) : before <+: q := by
  induction s with
  | nil =>
    unfold strstr at h
    split at h
    · rename_i hp
      cases h
      exact hp
    · cases h
  | cons c s ih =>
    unfold strstr at h
    split at h
    · rename_i hp
      cases h
      exact hp
    · exact ih h

theorem strstr_suffix (h : strstr before s = some q) : q <:+ s := by
  induction s with
  | nil =>
    unfold strstr at h
    split at h
    · cases h
      exact List.suffix_refl _
    · cases h
  | cons c s ih =>
    unfold strstr at h
    split at h
    · cases h
      exact List.suffix_refl _
    · exact (ih h).trans (List.suffix_cons c s)

/-- Behind an occurrence there is less of the string. -/
theorem length_behind (hb : before ≠ []) (h : strstr before s = some q) :
    (q.drop before.length).length < s.length := by
  have hs := (strstr_suffix h).length_le
  have hp := (strstr_begins h).length_le
  have := List.length_pos_of_ne_nil hb
  rw [List.length_drop]
  omega

/-! ## The loops -/

/-- The first loop; `len` is an `int`. -/
def counted (before : Text) (hb : before ≠ []) (ptr : Text) (len : BitVec 32) : BitVec 32 :=
  match _h : strstr before ptr with
  | some ptr => counted before hb (ptr.drop before.length) (len + 1)
  | none => len
termination_by ptr.length
decreasing_by exact length_behind hb _h

/-- `len` behind `len = strlen(str) + (afterLen - beforeLen) * len`. -/
def allocated (before after : Text) (hb : before ≠ []) (str : Text) : BitVec 32 :=
  let beforeLen := BitVec.ofNat 64 before.length
  let afterLen := BitVec.ofNat 64 after.length
  let len := counted before hb str 0
  (BitVec.ofNat 64 str.length + (afterLen - beforeLen) * len.signExtend 64).setWidth 32

/-- `strCatL`: what is appended; `max` and `dnl` are `int`s, and a negative `dnl` is a huge length
for `memcpy`. -/
def strCatL (str : Text) (max : BitVec 32) : Option Text :=
  let dnl := (BitVec.ofNat 64 (Nat.min str.length (max.signExtend 64).toNat)).setWidth 32
  if 0 ≤ dnl.toInt then some (str.take dnl.toNat) else none

/-- The second loop; the pointers `ptr` and `str` are the same at its head. -/
def stored (before after : Text) (hb : before ≠ []) (ptr : Text) : Option Text :=
  match _h : strstr before ptr with
  | some str => do
    let front ← strCatL ptr (BitVec.ofNat 32 (ptr.length - str.length))
    let value ← strCatL after (BitVec.ofNat 32 after.length)
    let rest ← stored before after hb (str.drop before.length)
    return front ++ (value ++ rest)
  | none => some ptr
termination_by ptr.length
decreasing_by exact length_behind hb _h

/-! ## The result -/

/-- **The leftmost non-overlapping occurrences** of `before` in a string are replaced. -/
inductive Replaced (before after : Text) : Text → Text → Prop
  | none {s : Text} (h : ¬ before <:+: s) : Replaced before after s s
  | some {front s r : Text}
      (hfirst : ∀ front' s', front ++ (before ++ s) = front' ++ (before ++ s') →
        front.length ≤ front'.length)
      (h : Replaced before after s r) :
      Replaced before after (front ++ (before ++ s)) (front ++ (after ++ r))

/-- **The property**: the result is right, and its length was allocated. -/
def Exact (before after : Text) (hb : before ≠ []) (str : Text) : Prop :=
  ∃ r, stored before after hb str = some r ∧ Replaced before after str r ∧
    (allocated before after hb str).toInt = r.length

/-! ## Finding the occurrences -/

theorem strstr_none : strstr before s = none ↔ ¬ before <:+: s := by
  induction s with
  | nil =>
    unfold strstr
    rw [List.infix_nil, ← List.prefix_nil]
    split <;> simp_all
  | cons c s ih =>
    unfold strstr
    rw [List.infix_cons_iff]
    split <;> simp_all

theorem first_cons {c : UInt8} {front s : Text}
    (hfirst : ∀ front' s', c :: (front ++ (before ++ s)) = front' ++ (before ++ s') →
      (c :: front).length ≤ front'.length) (front' s' : Text)
    (h : front ++ (before ++ s) = front' ++ (before ++ s')) : front.length ≤ front'.length := by
  have := hfirst (c :: front') s' (by rw [h, List.cons_append])
  exact Nat.le_of_succ_le_succ this

theorem strstr_first {front : Text}
    (hfirst : ∀ front' s', front ++ (before ++ s) = front' ++ (before ++ s') →
      front.length ≤ front'.length) :
    strstr before (front ++ (before ++ s)) = some (before ++ s) := by
  induction front with
  | nil =>
    have hp : before <+: before ++ s := List.prefix_append before s
    rw [List.nil_append]
    generalize before ++ s = t at hp
    cases t <;> simp [strstr, hp]
  | cons c front ih =>
    have hno : ¬ before <+: c :: (front ++ (before ++ s)) := by
      rintro ⟨s', hs⟩
      have := hfirst [] s' hs.symm
      simp at this
    rw [List.cons_append, strstr, if_neg hno]
    exact ih (first_cons hfirst)

theorem strstr_some (h : strstr before s = some q) : ∃ front s', s = front ++ (before ++ s') ∧
    ∀ front' s'', s = front' ++ (before ++ s'') → front.length ≤ front'.length := by
  induction s with
  | nil =>
    obtain ⟨s', hs⟩ := strstr_begins h
    have hq := List.suffix_nil.mp (strstr_suffix h)
    exact ⟨[], s', by rw [List.nil_append, hs, hq], fun _ _ _ => Nat.zero_le _⟩
  | cons c s ih =>
    unfold strstr at h
    split at h
    · rename_i hp
      obtain ⟨s', hs⟩ := hp
      exact ⟨[], s', hs.symm, fun _ _ _ => Nat.zero_le _⟩
    · rename_i hp
      obtain ⟨front, s', rfl, hmin⟩ := ih h
      refine ⟨c :: front, s', rfl, fun front' s'' hs => ?_⟩
      cases front' with
      | nil => exact absurd ⟨s'', hs.symm⟩ hp
      | cons c' front' =>
        rw [List.cons_append, List.cons.injEq] at hs
        exact Nat.succ_le_succ (hmin front' s'' hs.2)

/-- There is a result, since what is behind an occurrence is shorter. -/
theorem replaced_exists (hb : before ≠ []) (str : Text) : ∃ r, Replaced before after str r := by
  match hs : strstr before str with
  | none => exact ⟨str, .none (strstr_none.mp hs)⟩
  | some q =>
    obtain ⟨front, s', rfl, hmin⟩ := strstr_some hs
    have hlt : s'.length < (front ++ (before ++ s')).length := by
      have := List.length_pos_of_ne_nil hb
      rw [List.length_append, List.length_append]
      omega
    obtain ⟨r, hr⟩ := replaced_exists hb s'
    exact ⟨front ++ (after ++ r), .some hmin hr⟩
termination_by str.length

theorem not_infix_append {front : Text} (h : ¬ before <:+: front ++ (before ++ s)) : False :=
  h ⟨front, s, by rw [List.append_assoc]⟩

theorem replaced_unique (h : Replaced before after s r) (h' : Replaced before after s r') :
    r = r' := by
  induction h generalizing r' with
  | none hno =>
    cases h' with
    | none => rfl
    | some => exact (not_infix_append hno).elim
  | @some front s r hfirst _ ih =>
    generalize ht : front ++ (before ++ s) = t at h'
    cases h' with
    | none hno => exact (not_infix_append (ht ▸ hno)).elim
    | @some front' s' r'' hfirst' hrest =>
      have hlen : front.length = front'.length :=
        Nat.le_antisymm (hfirst front' s' ht) (hfirst' front s ht.symm)
      obtain ⟨rfl, hbs⟩ := List.append_inj ht hlen
      obtain rfl := List.append_cancel_left hbs
      rw [ih hrest]

/-! ## The length -/

/-- The difference of the lengths may wrap around: in an `int` that does not matter. -/
theorem wrapped_length {n a b k m : Nat} (h : m + k * b = n + k * a) :
    (BitVec.ofNat 64 n + (BitVec.ofNat 64 a - BitVec.ofNat 64 b) *
      (BitVec.ofNat 32 k).signExtend 64).setWidth 32 = BitVec.ofNat 32 m := by
  have hw : (32 : Nat) ≤ 64 := by decide
  have hk : ((BitVec.ofNat 32 k).signExtend 64).setWidth 32 = BitVec.ofNat 32 k := by
    apply BitVec.eq_of_getLsbD_eq
    intro i hi
    rw [BitVec.getLsbD_setWidth, BitVec.getLsbD_signExtend, if_pos hi]
    simp [hi, Nat.lt_of_lt_of_le hi hw]
  have hsub (x y : BitVec 64) : (x - y).setWidth 32 = x.setWidth 32 - y.setWidth 32 := by
    apply BitVec.eq_of_toNat_eq
    simp [BitVec.toNat_sub]
    omega
  have hlen : BitVec.ofNat 32 m + BitVec.ofNat 32 k * BitVec.ofNat 32 b =
      BitVec.ofNat 32 n + BitVec.ofNat 32 k * BitVec.ofNat 32 a := by
    rw [← BitVec.ofNat_mul, ← BitVec.ofNat_mul, ← BitVec.ofNat_add, ← BitVec.ofNat_add, h]
  rw [BitVec.setWidth_add _ _ hw, BitVec.setWidth_mul _ _ hw, hsub, hk,
    BitVec.setWidth_ofNat_of_le hw, BitVec.setWidth_ofNat_of_le hw, BitVec.setWidth_ofNat_of_le hw]
  linear_combination -hlen

/-- The first loop counts the occurrences: `k` replacements make the length. -/
theorem counted_eq (hb : before ≠ []) (h : Replaced before after s r) (len : BitVec 32) :
    ∃ k, counted before hb s len = len + BitVec.ofNat 32 k ∧
      r.length + k * before.length = s.length + k * after.length := by
  induction h generalizing len with
  | none hno =>
    rw [← strstr_none] at hno
    refine ⟨0, ?_, by simp⟩
    unfold counted
    split
    · simp_all
    · simp
  | @some front s r hfirst _ ih =>
    obtain ⟨k, hk, hlen⟩ := ih (len + 1)
    refine ⟨k + 1, ?_, ?_⟩
    · unfold counted
      split
      · rename_i q hq
        rw [strstr_first hfirst] at hq
        cases hq
        rw [List.drop_left, hk, BitVec.add_assoc, Nat.add_comm k 1, BitVec.ofNat_add]
        rfl
      · simp_all [strstr_first hfirst]
    · simp only [List.length_append, Nat.add_mul, Nat.one_mul]
      omega

theorem allocated_eq (hb : before ≠ []) (h : Replaced before after s r) :
    allocated before after hb s = BitVec.ofNat 32 r.length := by
  obtain ⟨k, hk, hlen⟩ := counted_eq hb h 0
  unfold allocated
  rw [hk]
  dsimp only
  rw [zero_add]
  exact wrapped_length hlen

/-! ## The copy -/

theorem toInt_ofNat_of_lt {n : Nat} (hn : n < 2 ^ 31) : (BitVec.ofNat 32 n).toInt = n := by
  rw [BitVec.toInt_eq_toNat_of_lt (by rw [BitVec.toNat_ofNat]; omega), BitVec.toNat_ofNat]
  omega

theorem strCatL_eq (str : Text) {n : Nat} (hn : n < 2 ^ 31) (hs : n ≤ str.length) :
    strCatL str (BitVec.ofNat 32 n) = some (str.take n) := by
  have hmax : ((BitVec.ofNat 32 n).signExtend 64).toNat = n := by
    rw [BitVec.toNat_signExtend, BitVec.msb_eq_false_iff_two_mul_lt.mpr
      (by rw [BitVec.toNat_ofNat]; omega), BitVec.toNat_setWidth, BitVec.toNat_ofNat]
    simp only [Bool.false_eq_true, if_false]
    omega
  have hdnl : (BitVec.ofNat 64 (Nat.min str.length n)).setWidth 32 = BitVec.ofNat 32 n := by
    rw [BitVec.setWidth_ofNat_of_le (by decide)]
    congr 1
    exact Nat.min_eq_right hs
  unfold strCatL
  rw [hmax, hdnl]
  dsimp only
  rw [toInt_ofNat_of_lt hn, if_pos (Int.natCast_nonneg n), BitVec.toNat_ofNat,
    Nat.mod_eq_of_lt (by omega)]

theorem stored_eq (hb : before ≠ []) (h : Replaced before after s r) (hr : r.length < 2 ^ 31) :
    stored before after hb s = some r := by
  induction h with
  | none hno =>
    rw [← strstr_none] at hno
    unfold stored
    split
    · simp_all
    · rfl
  | @some front s r hfirst _ ih =>
    simp only [List.length_append] at hr
    unfold stored
    split
    · rename_i q hq
      rw [strstr_first hfirst] at hq
      cases hq
      have hfront : (front ++ (before ++ s)).length - (before ++ s).length = front.length := by
        rw [List.length_append, Nat.add_sub_cancel]
      rw [hfront, strCatL_eq _ (by omega) (by simp), strCatL_eq after (by omega) (Nat.le_refl _),
        List.drop_left, ih (by omega), List.take_left, List.take_length]
      rfl
    · simp_all [strstr_first hfirst]

theorem exact_of_lt (hb : before ≠ []) (h : Replaced before after s r) (hlt : r.length < 2 ^ 31) :
    Exact before after hb s := by
  refine ⟨r, stored_eq hb h hlt, h, ?_⟩
  rw [allocated_eq hb h, toInt_ofNat_of_lt hlt]

theorem lt_of_exact (hb : before ≠ []) (h : Replaced before after s r)
    (he : Exact before after hb s) : r.length < 2 ^ 31 := by
  obtain ⟨r', -, hr', hlen⟩ := he
  obtain rfl := replaced_unique h hr'
  have := BitVec.toInt_lt (x := allocated before after hb s)
  omega

end Kdm.Replace
