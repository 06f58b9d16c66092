import Mathlib.Algebra.Ring.Int.Defs
import Mathlib.Algebra.Ring.Nat
import Mathlib.Data.List.Basic
import Mathlib.Data.List.TakeWhile

/-!
# Macro expansion

`expandMacros` of `util.c` goes over its template twice: the first pass counts the characters of
the result, the second one stores them.  A pointer is what is left of the template from there on,
with the terminator; nothing can be read behind it.

* `count`, `store` — the two passes, with the counters that the code keeps in an `int`.
* `Expands` — what the result is: the template with the sequences replaced.

Principal result: `passes_iff`.  The passes agree with each other and with `Expands` exactly when an
`int` can hold the length of the result.
-/

namespace Kdm.Macros

abbrev Text := List UInt8

/-- The terminator of a string. -/
def NUL : UInt8 := 0

/-- `'%'`. -/
def PERCENT : UInt8 := 37

/-- `struct expando`; `uses` is what `store` gives. -/
structure Expando where
  key : UInt8
  val : Option Text

/-- The loop over the table. -/
def findKey (expandos : List Expando) (c : UInt8) : Option Expando :=
  expandos.find? fun ex => c == ex.key

/-! ## The passes -/

/-- The first pass; `rcnt` counts the characters of a sequence, and is `none` outside of one. -/
def count (expandos : List Expando) :
    Option (BitVec 32) → List UInt8 → BitVec 32 → Option (BitVec 32)
  | _, [], _ => none
  | none, c :: sp, cnt =>
    if c = NUL then some cnt
    else if c = PERCENT then count expandos (some 0) sp cnt
    else count expandos none sp (cnt + 1)
  | some rcnt, c :: sp, cnt =>
    if c = NUL then some cnt
    else if c = PERCENT then count expandos none sp (cnt + 1)
    else
      match findKey expandos c with
      | some ⟨_, some val⟩ => count expandos none sp (cnt + (BitVec.ofNat 32 val.length + rcnt))
      | some ⟨_, none⟩ => count expandos none sp cnt
      | none => count expandos (some (rcnt + 1)) sp cnt

/-- `memcpy`, as far as there is something to read; a negative length is a huge one. -/
def memcpy (src : List UInt8) (n : BitVec 32) : Option Text :=
  if 0 ≤ n.toInt ∧ n.toNat ≤ src.length then some (src.take n.toNat) else none

/-- `str - n`, where `back` was read, the latest first. -/
def rewind (back str : List UInt8) (n : Nat) : List UInt8 := (back.take n).reverse ++ str

/-- The second pass, with the entries whose `uses` it increments. -/
def store (expandos : List Expando) :
    Option (BitVec 32) → List UInt8 → List UInt8 → Option (Text × List Expando)
  | _, _, [] => none
  | none, back, c :: str =>
    if c = NUL then some ([], [])
    else if c = PERCENT then store expandos (some 0) (c :: back) str
    else (store expandos none (c :: back) str).map fun r => (c :: r.1, r.2)
  | some rcnt, back, c :: str =>
    if c = NUL then some ([], [])
    else if c = PERCENT then
      (store expandos none (c :: back) str).map fun r => (c :: r.1, r.2)
    else
      match findKey expandos c with
      | some ⟨key, some val⟩ => do
        let flags ← memcpy (rewind (c :: back) str (1 + rcnt.toNat)) rcnt
        let value ← memcpy (val ++ [NUL]) (BitVec.ofNat 32 val.length)
        let r ← store expandos none (c :: back) str
        return (flags ++ (value ++ r.1), ⟨key, some val⟩ :: r.2)
      | some ⟨key, none⟩ =>
        (store expandos none (c :: back) str).map fun r => (r.1, ⟨key, none⟩ :: r.2)
      | none => store expandos (some (rcnt + 1)) (c :: back) str

/-! ## The result -/

/-- A character that a sequence goes on behind. -/
def Flag (expandos : List Expando) (c : UInt8) : Prop := c ≠ PERCENT ∧ findKey expandos c = none

/-- What stands for a sequence: `%` for itself, and the flags with the value for a key that has
one. -/
def value (expandos : List Expando) (flags : Text) (k : UInt8) : Text :=
  if k = PERCENT then [PERCENT]
  else
    match findKey expandos k with
    | some ⟨_, some val⟩ => flags ++ val
    | some ⟨_, none⟩ | none => []

/-- **The template and its expansion.** -/
inductive Expands (expandos : List Expando) : Text → Text → Prop
  | nil : Expands expandos [] []
  | char {c : UInt8} {t r : Text} (hc : c ≠ PERCENT) (h : Expands expandos t r) :
      Expands expandos (c :: t) (c :: r)
  | sequence {flags : Text} {k : UInt8} {t r : Text} (hf : ∀ f ∈ flags, Flag expandos f)
      (hk : ¬ Flag expandos k) (h : Expands expandos t r) :
      Expands expandos (PERCENT :: (flags ++ k :: t)) (value expandos flags k ++ r)
  | incomplete {flags : Text} (hf : ∀ f ∈ flags, Flag expandos f) :
      Expands expandos (PERCENT :: flags) []

/-- **The property**: the buffer has the length of what is stored, which is the expansion, and no
pass reads behind the terminator. -/
def Agree (expandos : List Expando) (t : Text) : Prop :=
  ∃ cnt r, count expandos none (t ++ [NUL]) 0 = some cnt ∧
    (store expandos none [] (t ++ [NUL])).map Prod.fst = some r ∧ cnt.toInt = r.length ∧
    Expands expandos t r

variable {expandos : List Expando} {t r r' flags back p : Text} {k c : UInt8} {cnt rcnt : BitVec 32}

/-! ## The expansion is unique -/

theorem flags_split (expandos : List Expando) (t : Text) :
    (∀ f ∈ t, Flag expandos f) ∨
      ∃ flags k u, t = flags ++ k :: u ∧ (∀ f ∈ flags, Flag expandos f) ∧ ¬ Flag expandos k := by
  induction t with
  | nil => exact .inl (List.forall_mem_nil _)
  | cons c t ih =>
    by_cases hc : Flag expandos c
    · rcases ih with hall | ⟨flags, k, u, rfl, hf, hk⟩
      · exact .inl (List.forall_mem_cons.mpr ⟨hc, hall⟩)
      · exact .inr ⟨c :: flags, k, u, rfl, List.forall_mem_cons.mpr ⟨hc, hf⟩, hk⟩
    · exact .inr ⟨[], c, t, rfl, List.forall_mem_nil _, hc⟩

theorem flags_unique {flags' u u' : Text} {k' : UInt8} (hf : ∀ f ∈ flags, Flag expandos f)
    (hk : ¬ Flag expandos k) (hf' : ∀ f ∈ flags', Flag expandos f) (hk' : ¬ Flag expandos k')
    (h : flags ++ k :: u = flags' ++ k' :: u') : flags = flags' ∧ k = k' ∧ u = u' := by
  induction flags generalizing flags' with
  | nil =>
    cases flags' with
    | nil =>
      cases h
      exact ⟨rfl, rfl, rfl⟩
    | cons f' flags' =>
      cases h
      exact absurd (hf' k List.mem_cons_self) hk
  | cons f flags ih =>
    cases flags' with
    | nil =>
      cases h
      exact absurd (hf k' List.mem_cons_self) hk'
    | cons f' flags' =>
      obtain ⟨rfl, htail⟩ : f = f' ∧ flags ++ k :: u = flags' ++ k' :: u' := List.cons.inj h
      obtain ⟨rfl, hrest⟩ := ih (List.forall_mem_cons.mp hf).2 (List.forall_mem_cons.mp hf').2 htail
      exact ⟨rfl, hrest⟩

theorem expands_exists (expandos : List Expando) (t : Text) : ∃ r, Expands expandos t r := by
  induction hn : t.length using Nat.strongRecOn generalizing t with
  | _ n ih =>
    cases t with
    | nil => exact ⟨[], .nil⟩
    | cons c t =>
      by_cases hc : c = PERCENT
      · subst hc
        rcases flags_split expandos t with hall | ⟨flags, k, u, rfl, hf, hk⟩
        · exact ⟨[], .incomplete hall⟩
        · have hlt : u.length < n := by
            rw [← hn]
            simp only [List.length_cons, List.length_append]
            omega
          obtain ⟨r, hr⟩ := ih u.length hlt u rfl
          exact ⟨_, .sequence hf hk hr⟩
      · obtain ⟨r, hr⟩ := ih t.length (by rw [← hn]; exact Nat.lt_succ_self _) t rfl
        exact ⟨c :: r, .char hc hr⟩

theorem expands_unique (h : Expands expandos t r) (h' : Expands expandos t r') : r = r' := by
  induction h generalizing r' with
  | nil =>
    cases h'
    rfl
  | char hc h ih =>
    cases h' with
    | char hc' h' => rw [ih h']
    | sequence hf' hk' h' => exact absurd rfl hc
    | incomplete hf' => exact absurd rfl hc
  | @sequence flags k t r hf hk h ih =>
    generalize ht : PERCENT :: (flags ++ k :: t) = s at h'
    cases h' with
    | nil => cases ht
    | char hc' h' =>
      cases ht
      exact absurd rfl hc'
    | sequence hf' hk' h' =>
      obtain ⟨_, ht⟩ := List.cons.inj ht
      obtain ⟨rfl, rfl, rfl⟩ := flags_unique hf hk hf' hk' ht
      rw [ih h']
    | incomplete hf' =>
      obtain ⟨_, rfl⟩ := List.cons.inj ht
      exact absurd (hf' k (List.mem_append_right _ List.mem_cons_self)) hk
  | @incomplete flags hf =>
    generalize ht : PERCENT :: flags = s at h'
    cases h' with
    | nil => cases ht
    | char hc' h' =>
      cases ht
      exact absurd rfl hc'
    | sequence hf' hk' h' =>
      obtain ⟨_, rfl⟩ := List.cons.inj ht
      exact absurd (hf _ (List.mem_append_right _ List.mem_cons_self)) hk'
    | incomplete hf' => rfl

/-! ## The first pass -/

theorem percent_ne_nul : PERCENT ≠ NUL := by decide

theorem add_counts (cnt : BitVec 32) (a b : Nat) :
    cnt + BitVec.ofNat 32 a + BitVec.ofNat 32 b = cnt + BitVec.ofNat 32 (a + b) := by
  rw [BitVec.add_assoc, ← BitVec.ofNat_add]

theorem zero_counts (n : Nat) : 0 + BitVec.ofNat 32 n = BitVec.ofNat 32 n := BitVec.zero_add _

theorem add_one_counts (cnt : BitVec 32) (b : Nat) :
    cnt + 1 + BitVec.ofNat 32 b = cnt + BitVec.ofNat 32 (b + 1) := by
  rw [Nat.add_comm b]
  exact add_counts cnt 1 b

theorem count_flags (hf : ∀ f ∈ flags, Flag expandos f) (h0 : NUL ∉ flags) :
    count expandos (some rcnt) (flags ++ p) cnt =
      count expandos (some (rcnt + BitVec.ofNat 32 flags.length)) p cnt := by
  induction flags generalizing rcnt with
  | nil => simp
  | cons f flags ih =>
    obtain ⟨⟨hper, hkey⟩, hf⟩ := List.forall_mem_cons.mp hf
    obtain ⟨hnul, h0⟩ := List.ne_and_not_mem_of_not_mem_cons h0
    rw [List.cons_append, count, if_neg (Ne.symm hnul), if_neg hper, hkey]
    dsimp only
    rw [ih hf h0, List.length_cons, add_one_counts]

/-- **The first pass** counts the characters of the expansion. -/
theorem count_expands (h : Expands expandos t r) (h0 : NUL ∉ t) :
    count expandos none (t ++ [NUL]) cnt = some (cnt + BitVec.ofNat 32 r.length) := by
  induction h generalizing cnt with
  | nil => simp [count]
  | @char c t r hc h ih =>
    obtain ⟨hnul, h0⟩ := List.ne_and_not_mem_of_not_mem_cons h0
    rw [List.cons_append, count, if_neg (Ne.symm hnul), if_neg hc, ih h0, List.length_cons,
      add_one_counts]
  | @sequence flags k t r hf hk h ih =>
    obtain ⟨_, h0⟩ := List.ne_and_not_mem_of_not_mem_cons h0
    obtain ⟨h0f, h0k, h0t⟩ : NUL ∉ flags ∧ NUL ≠ k ∧ NUL ∉ t := by
      simpa [not_or] using h0
    rw [List.cons_append, List.append_assoc, count, if_neg percent_ne_nul, if_pos rfl,
      count_flags hf h0f, List.cons_append, count, if_neg (Ne.symm h0k)]
    unfold value
    by_cases hper : k = PERCENT
    · rw [if_pos hper, if_pos hper, ih h0t, List.length_append, add_one_counts,
        Nat.add_comm r.length]
      rfl
    · rw [if_neg hper, if_neg hper]
      cases hkey : findKey expandos k with
      | none => exact absurd ⟨hper, hkey⟩ hk
      | some ex =>
        obtain ⟨key, val⟩ := ex
        cases val with
        | none =>
          dsimp only
          rw [ih h0t]
          rfl
        | some val =>
          dsimp only
          rw [ih h0t, zero_counts, ← BitVec.ofNat_add, add_counts, List.length_append,
            List.length_append, Nat.add_comm flags.length]
  | @incomplete flags hf =>
    obtain ⟨_, h0⟩ := List.ne_and_not_mem_of_not_mem_cons h0
    rw [List.cons_append, count, if_neg percent_ne_nul, if_pos rfl, count_flags hf h0]
    simp [count]

/-! ## The second pass -/

theorem toInt_short {n : Nat} (h : n < 2 ^ 31) : (BitVec.ofNat 32 n).toInt = n := by
  rw [BitVec.toInt_eq_toNat_cond, BitVec.toNat_ofNat]
  split
  · omega
  · omega

theorem memcpy_all {v : Text} (h : v.length < 2 ^ 31) :
    memcpy (v ++ p) (BitVec.ofNat 32 v.length) = some v := by
  have hlen : (BitVec.ofNat 32 v.length).toNat = v.length := by
    rw [BitVec.toNat_ofNat]
    omega
  unfold memcpy
  rw [if_pos ⟨by rw [toInt_short h]; omega, by rw [hlen, List.length_append]; omega⟩, hlen,
    List.take_left]

/-- The way back over the flags and the key. -/
theorem rewind_flags (flags : Text) (k : UInt8) (back p : Text) :
    rewind (k :: (flags.reverse ++ back)) p (1 + flags.length) = flags ++ k :: p := by
  unfold rewind
  rw [Nat.add_comm, List.take_succ_cons, List.take_left' (by simp), List.reverse_cons,
    List.reverse_reverse, List.append_assoc]
  rfl

theorem store_flags (hf : ∀ f ∈ flags, Flag expandos f) (h0 : NUL ∉ flags) :
    store expandos (some rcnt) back (flags ++ p) =
      store expandos (some (rcnt + BitVec.ofNat 32 flags.length)) (flags.reverse ++ back) p := by
  induction flags generalizing rcnt back with
  | nil => simp
  | cons f flags ih =>
    obtain ⟨⟨hper, hkey⟩, hf⟩ := List.forall_mem_cons.mp hf
    obtain ⟨hnul, h0⟩ := List.ne_and_not_mem_of_not_mem_cons h0
    rw [List.cons_append, store, if_neg (Ne.symm hnul), if_neg hper, hkey]
    dsimp only
    rw [ih hf h0, List.length_cons, add_one_counts, List.reverse_cons, List.append_assoc]
    rfl

/-- **The second pass** stores the expansion, if an `int` can hold its length. -/
theorem store_expands (h : Expands expandos t r) (h0 : NUL ∉ t) (hr : r.length < 2 ^ 31) :
    (store expandos none back (t ++ [NUL])).map Prod.fst = some r := by
  induction h generalizing back with
  | nil => rfl
  | @char c t r hc h ih =>
    obtain ⟨hnul, h0⟩ := List.ne_and_not_mem_of_not_mem_cons h0
    rw [List.length_cons] at hr
    rw [List.cons_append, store, if_neg (Ne.symm hnul), if_neg hc]
    have hrest : (store expandos none (c :: back) (t ++ [NUL])).map Prod.fst = some r :=
      ih h0 (by omega)
    obtain ⟨⟨r', uses⟩, hs, rfl⟩ := Option.map_eq_some_iff.mp hrest
    rw [hs]
    rfl
  | @sequence flags k t r hf hk h ih =>
    obtain ⟨_, h0⟩ := List.ne_and_not_mem_of_not_mem_cons h0
    obtain ⟨h0f, h0k, h0t⟩ : NUL ∉ flags ∧ NUL ≠ k ∧ NUL ∉ t := by
      simpa [not_or] using h0
    rw [List.length_append] at hr
    have hrest : (store expandos none (k :: (flags.reverse ++ PERCENT :: back)) (t ++ [NUL])).map
        Prod.fst = some r := ih h0t (by omega)
    obtain ⟨⟨r', uses⟩, hs, rfl⟩ := Option.map_eq_some_iff.mp hrest
    rw [List.cons_append, List.append_assoc, store, if_neg percent_ne_nul, if_pos rfl,
      store_flags hf h0f, List.cons_append, store, if_neg (Ne.symm h0k)]
    unfold value at hr ⊢
    by_cases hper : k = PERCENT
    · rw [if_pos hper, if_pos hper, hs, hper]
      rfl
    · rw [if_neg hper] at hr ⊢
      rw [if_neg hper]
      cases hkey : findKey expandos k with
      | none => exact absurd ⟨hper, hkey⟩ hk
      | some ex =>
        rw [hkey] at hr
        obtain ⟨key, val⟩ := ex
        cases val with
        | none =>
          dsimp only
          rw [hs]
          rfl
        | some val =>
          dsimp only at hr ⊢
          rw [List.length_append] at hr
          have hlen : (BitVec.ofNat 32 flags.length).toNat = flags.length := by
            rw [BitVec.toNat_ofNat]
            omega
          rw [zero_counts, hlen, rewind_flags, memcpy_all (by omega), memcpy_all (by omega), hs]
          show some (flags ++ (val ++ r')) = _
          rw [List.append_assoc]
  | @incomplete flags hf =>
    obtain ⟨_, h0⟩ := List.ne_and_not_mem_of_not_mem_cons h0
    rw [List.cons_append, store, if_neg percent_ne_nul, if_pos rfl, store_flags hf h0]
    rfl

/-! ## Both passes -/

theorem toInt_lt (v : BitVec 32) : v.toInt < 2 ^ 31 := by
  rw [BitVec.toInt_eq_toNat_cond]
  have hlt := v.isLt
  split
  · omega
  · omega

/-- An expansion that is too long is not counted. -/
theorem not_agree_of_long (h : Expands expandos t r) (hr : 2 ^ 31 ≤ r.length) :
    ¬ Agree expandos t := by
  rintro ⟨cnt, r', _, _, hcnt, h'⟩
  rw [← expands_unique h h'] at hcnt
  have := toInt_lt cnt
  omega

namespace Sample

/-- `%u` is `root` and `%r` has no value. -/
def table : List Expando := [⟨117, some [114, 111, 111, 116]⟩, ⟨114, none⟩]

/-- `/%_u%r%%`. -/
def template : Text := [47, 37, 95, 117, 37, 114, 37, 37]

/-- `/_root%`. -/
def expansion : Text := [47, 95, 114, 111, 111, 116, 37]

example : count table none (template ++ [NUL]) 0 = some 7 := by decide

example : (store table none [] (template ++ [NUL])).map Prod.fst = some expansion := by decide

end Sample

/-- A template without sequences is its own expansion. -/
theorem expands_plain (h : PERCENT ∉ t) : Expands expandos t t := by
  induction t with
  | nil => exact .nil
  | cons c t ih =>
    obtain ⟨hc, ht⟩ := List.ne_and_not_mem_of_not_mem_cons h
    exact .char (Ne.symm hc) (ih ht)

end Kdm.Macros
