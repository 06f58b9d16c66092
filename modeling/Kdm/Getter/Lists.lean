import Kdm.Getter.Values
import Kdm.Lib.Lines
import Mathlib.Data.List.Pairwise

/-!
# Lists of values

The third case of `convertValue` (`kdm_config.c`), with its three indices and with the array that
grows: a store beyond the room of the array fails.  Memory is there when it is asked for.

* `argvLoop`, `argvOf` — the loop of the source; `argvOf_eq` says that it makes `elements` and
  that the array always has room.
* `fields` — the elements that a list is meant to have.

Principal result: `argvOf_complete_iff`.
-/

namespace Kdm.Getter

open Codec Ipc

/-! ## The loop -/

/-- `for (; i < vallen && p(val[i]); i++);` -/
def advance (p : UInt8 → Bool) (val : Bytes) (i : Nat) : Nat :=
  if h : i < val.length then if p val[i] then advance p val (i + 1) else i else i
termination_by val.length - i

/-- `for (; e > b && p(val[e - 1]); e--);` -/
def retreat (p : UInt8 → Bool) (val : Bytes) (b : Nat) : Nat → Nat
  | 0 => 0
  | e + 1 => if b < e + 1 ∧ val[e]?.any p then retreat p val b e else e + 1

/-- The array of the elements, its room, and the characters that they will need. -/
structure Ents where
  ents : List Bytes
  tlen : Nat
  esiz : Nat
  deriving DecidableEq

/-- Put an element into the array, which grows before that. -/
def Ents.store (st : Ents) (w : Bytes) : Option Ents :=
  let esiz := if st.esiz < st.ents.length + 2 then st.esiz * 2 + 1 else st.esiz
  if st.ents.length < esiz then
    some { ents := st.ents ++ [w], tlen := st.tlen + (w.length + 1), esiz }
  else none

/-- The NULL behind the last element. -/
def Ents.terminate (st : Ents) : Option Ents :=
  if st.ents.length < st.esiz then some st else none

theorem advance_eq (p : UInt8 → Bool) (val : Bytes) (i : Nat) :
    advance p val i = i + ((val.drop i).takeWhile p).length := by
  induction i using advance.induct p val with
  | case1 i h hp ih =>
    rw [advance, dif_pos h, if_pos hp, ih, List.drop_eq_getElem_cons h, List.takeWhile_cons_of_pos hp,
      List.length_cons]
    omega
  | case2 i h hp =>
    rw [advance, dif_pos h, if_neg hp, List.drop_eq_getElem_cons h, List.takeWhile_cons_of_neg hp]
    rfl
  | case3 i h =>
    rw [advance, dif_neg h, List.drop_eq_nil_of_le (not_lt.mp h)]
    rfl

theorem drop_advance (p : UInt8 → Bool) (val : Bytes) (i : Nat) :
    val.drop (advance p val i) = (val.drop i).dropWhile p := by
  rw [advance_eq, ← List.drop_drop]
  calc (val.drop i).drop ((val.drop i).takeWhile p).length
    _ = ((val.drop i).takeWhile p ++ (val.drop i).dropWhile p).drop
          ((val.drop i).takeWhile p).length := by rw [List.takeWhile_append_dropWhile]
    _ = (val.drop i).dropWhile p := List.drop_left' rfl

theorem advance_le_length {p : UInt8 → Bool} {val : Bytes} {i : Nat} (h : i ≤ val.length) :
    advance p val i ≤ val.length := by
  have hle : ((val.drop i).takeWhile p).length ≤ (val.drop i).length :=
    (List.takeWhile_prefix _).length_le
  rw [List.length_drop] at hle
  rw [advance_eq]
  omega

/-- The value between two indices. -/
def slice (val : Bytes) (b e : Nat) : Bytes := (val.drop b).take (e - b)

theorem slice_advance (p : UInt8 → Bool) (val : Bytes) (i : Nat) :
    slice val i (advance p val i) = (val.drop i).takeWhile p := by
  unfold slice
  rw [advance_eq, Nat.add_sub_cancel_left]
  exact (List.prefix_iff_eq_take.mp (List.takeWhile_prefix p)).symm

theorem slice_retreat (p : UInt8 → Bool) (val : Bytes) {b e : Nat} (hb : b ≤ e)
    (he : e ≤ val.length) : slice val b (retreat p val b e) = (slice val b e).rdropWhile p := by
  induction e with
  | zero =>
    obtain rfl : b = 0 := by omega
    rfl
  | succ e ih =>
    unfold retreat
    by_cases hbe : b = e + 1
    · subst hbe
      rw [if_neg (by omega)]
      simp [slice]
    · have hle : b ≤ e := by omega
      -- the last character of the slice
      have hs : slice val b (e + 1) = slice val b e ++ [val[e]] := by
        unfold slice
        rw [Nat.succ_sub hle, List.take_succ_eq_append_getElem (by rw [List.length_drop]; omega)]
        simp [Nat.add_sub_cancel' hle]
      have hget : val[e]? = some val[e] := List.getElem?_eq_getElem he
      rw [hs, List.rdropWhile_concat, hget, Option.any_some]
      by_cases hp : p val[e]
      · rw [if_pos ⟨by omega, hp⟩, if_pos hp]
        exact ih hle (by omega)
      · rw [if_neg (fun h => hp h.2), if_neg hp, hs]

theorem advance_lt {p : UInt8 → Bool} {val : Bytes} {b : Nat} (h : b ≠ advance p val b) :
    b < val.length ∧ b < advance p val b := by
  have he := advance_eq p val b
  have hle : ((val.drop b).takeWhile p).length ≤ (val.drop b).length :=
    (List.takeWhile_prefix _).length_le
  rw [List.length_drop] at hle
  omega

def argvLoop (val : Bytes) (i : Nat) (st : Ents) : Option Ents :=
  let b := advance isspace val i
  let i' := advance (· != 44) val b
  if _h : b = i' then st.terminate
  else
    match st.store (slice val b (retreat isspace val b i')) with
    | some st' => argvLoop val (i' + 1) st'
    | none => none
termination_by val.length - i
decreasing_by
  have hb : b = i + ((val.drop i).takeWhile isspace).length := advance_eq isspace val i
  have hi : b < val.length ∧ b < i' := advance_lt _h
  show val.length - (i' + 1) < val.length - i
  omega

/-- The array has room for ten elements at first. -/
def argvOf (val : Bytes) : Option Ents := argvLoop val 0 { ents := [], tlen := 0, esiz := 10 }

/-! ## What the loop makes -/

/-- The characters that a list needs, a terminator for each element. -/
def totlen (l : List Bytes) : Nat := (l.map (·.length + 1)).sum

/-- If there is room for the NULL, there is room for it behind one element more. -/
theorem Ents.store_eq {st : Ents} (h : st.ents.length < st.esiz) (w : Bytes) :
    ∃ esiz, st.store w = some ⟨st.ents ++ [w], st.tlen + (w.length + 1), esiz⟩ ∧
      (st.ents ++ [w]).length < esiz := by
  unfold Ents.store
  rw [List.length_append, List.length_singleton]
  by_cases hg : st.esiz < st.ents.length + 2
  · refine ⟨st.esiz * 2 + 1, ?_, by omega⟩
    dsimp only
    rw [if_pos hg, if_pos (by omega)]
  · refine ⟨st.esiz, ?_, by omega⟩
    dsimp only
    rw [if_neg hg, if_pos h]

/-- **The loop never runs out of room**, and it appends the elements of what is left. -/
theorem argvLoop_eq (val : Bytes) (i : Nat) {st : Ents} (h : st.ents.length < st.esiz) :
    ∃ esiz, argvLoop val i st =
      some ⟨st.ents ++ elements (val.drop i), st.tlen + totlen (elements (val.drop i)), esiz⟩ := by
  induction i, st using argvLoop.induct val with
  | case1 i st b i' hb =>
    have he : ((val.drop i).dropWhile isspace).takeWhile (· != 44) = [] := by
      have hlen : i' = b + ((val.drop b).takeWhile (· != 44)).length := advance_eq _ val b
      rw [← drop_advance]
      change ((val.drop b).takeWhile (· != 44)) = []
      exact List.length_eq_zero_iff.mp (by omega)
    rw [argvLoop, dif_pos hb, elements, if_pos he, List.append_nil]
    exact ⟨st.esiz, if_pos h⟩
  | case2 i st b i' hb st' hst ih =>
    have hlt : b < val.length ∧ b < i' := advance_lt hb
    have hi : i' = b + ((val.drop b).takeWhile (· != 44)).length := advance_eq _ val b
    have hb_drop : val.drop b = (val.drop i).dropWhile isspace := drop_advance isspace val i
    have hle : i' ≤ val.length := advance_le_length hlt.1.le
    -- the element between the blanks
    have hw : slice val b (retreat isspace val b i') =
        ((val.drop b).takeWhile (· != 44)).rdropWhile isspace := by
      rw [slice_retreat isspace val hlt.2.le hle]
      exact congrArg (List.rdropWhile isspace) (slice_advance _ val b)
    -- what is left behind the comma
    have hrest : (val.drop b).drop (((val.drop b).takeWhile (· != 44)).length + 1) =
        val.drop (i' + 1) := by
      rw [List.drop_drop, hi, Nat.add_assoc]
    have hne : (val.drop b).takeWhile (· != 44) ≠ [] := by
      intro he
      rw [he, List.length_nil] at hi
      omega
    obtain ⟨esiz, hs, hroom⟩ := Ents.store_eq h (slice val b (retreat isspace val b i'))
    rw [hst] at hs
    cases hs
    obtain ⟨esiz', hr⟩ := ih hroom
    rw [argvLoop, dif_neg hb, elements, ← hb_drop, if_neg hne, hrest, ← hw]
    rw [show st.store (slice val b (retreat isspace val b i')) = _ from hst]
    refine ⟨esiz', hr.trans ?_⟩
    rw [List.append_assoc, List.singleton_append, totlen, totlen, List.map_cons, List.sum_cons,
      Nat.add_assoc]
  | case3 i st b i' hb hst =>
    obtain ⟨esiz, he, -⟩ := Ents.store_eq h (slice val b (retreat isspace val b i'))
    rw [hst] at he
    cases he

theorem argvOf_eq (val : Bytes) :
    ∃ esiz, argvOf val = some ⟨elements val, totlen (elements val), esiz⟩ := by
  have hroom : (⟨[], 0, 10⟩ : Ents).ents.length < (⟨[], 0, 10⟩ : Ents).esiz := by decide
  obtain ⟨esiz, h⟩ := argvLoop_eq val 0 hroom
  rw [List.drop_zero, List.nil_append, Nat.zero_add] at h
  exact ⟨esiz, h⟩

/-- The conversion of a list is this loop. -/
theorem argvOf_convertArgv (val : Arr) :
    ∃ esiz, argvOf val.1 =
      some ⟨(convertArgv val).map (·.1), (Value.argv (convertArgv val)).chars, esiz⟩ := by
  obtain ⟨esiz, h⟩ := argvOf_eq val.1
  have hents : (convertArgv val).map (·.1) = elements val.1 := by
    unfold convertArgv
    rw [List.map_pmap]
    exact List.pmap_eq_self.mpr fun _ _ => rfl
  refine ⟨esiz, ?_⟩
  rw [h, ← hents, totlen, Value.chars, List.map_map]
  rfl

/-! ## The elements that were meant -/

/-- Without the blanks on both sides. -/
def trim (w : Bytes) : Bytes := (w.dropWhile isspace).rdropWhile isspace

/-- There is more than blanks between two commas. -/
def filled (w : Bytes) : Bool := w.any fun x => !isspace x

/-- The elements between the commas that are not empty, without the blanks around them. -/
def fields (val : Bytes) : List Bytes := ((val.splitOn 44).map trim).filter fun w => !w.isEmpty

theorem dropWhile_eq_nil_iff (w : Bytes) : w.dropWhile isspace = [] ↔ filled w = false := by
  rw [List.dropWhile_eq_nil_iff]
  unfold filled
  simp

theorem trim_eq_nil_iff (w : Bytes) : trim w = [] ↔ filled w = false := by
  rw [← dropWhile_eq_nil_iff, trim, List.rdropWhile_eq_nil_iff]
  constructor
  · intro h
    by_contra hne
    exact absurd (h _ (List.head_mem hne)) (Bool.not_eq_true _ ▸ List.head_dropWhile_not isspace hne)
  · intro h x hx
    rw [h] at hx
    cases hx

theorem fields_eq (val : Bytes) : fields val = ((val.splitOn 44).filter filled).map trim := by
  have hp : ((fun w : Bytes => !w.isEmpty) ∘ trim) = filled := by
    funext w
    have h := trim_eq_nil_iff w
    rw [← List.isEmpty_iff] at h
    cases hf : filled w <;> simp_all
  rw [fields, List.filter_map, hp]

/-- What stands before the first comma, and what behind it. -/
theorem splitOn_comma {w : Bytes} (hw : 44 ∉ w) (t : Bytes) :
    (w ++ 44 :: t).splitOn 44 = w :: t.splitOn 44 := by
  rw [List.splitOn_eq_splitOnP, List.splitOnP_append_cons_of_forall_mem _ 44 (by decide)]
  · rfl
  · intro x hx
    simpa using fun h : x = 44 => hw (h ▸ hx)

/-- A value is what stands before the first comma, and the rest. -/
theorem exists_first (val : Bytes) :
    ∃ w r, val = w ++ r ∧ 44 ∉ w ∧ (r = [] ∨ ∃ t, r = 44 :: t) := by
  by_cases h : 44 ∈ val
  · obtain ⟨t, ht, -⟩ := Lines.takeWhile_append h
    exact ⟨_, _, ht, Lines.not_mem_takeWhile 44 val, .inr ⟨t, rfl⟩⟩
  · exact ⟨val, [], (List.append_nil val).symm, h, .inl rfl⟩

/-- What the loop takes for the first element. -/
theorem first_eq {w r : Bytes} (hw : 44 ∉ w) (hr : r = [] ∨ ∃ t, r = 44 :: t) :
    (w ++ r).dropWhile isspace = w.dropWhile isspace ++ r ∧
      (w.dropWhile isspace ++ r).takeWhile (· != 44) = w.dropWhile isspace := by
  have hskip : r.dropWhile isspace = r := by
    rcases hr with rfl | ⟨t, rfl⟩
    · rfl
    · exact List.dropWhile_cons_of_neg (by decide)
  have hcomma : r.takeWhile (· != 44) = [] := by
    rcases hr with rfl | ⟨t, rfl⟩
    · rfl
    · exact List.takeWhile_cons_of_neg (by decide)
  refine ⟨?_, ?_⟩
  · rw [List.dropWhile_append, hskip]
    split
    · next h => rw [List.isEmpty_iff.mp h, List.nil_append]
    · rfl
  · rw [List.takeWhile_append_of_pos, hcomma, List.append_nil]
    intro x hx
    have hne : x ≠ 44 := fun h => hw (h ▸ (List.dropWhile_suffix _).mem hx)
    simpa using hne

/-- The loop stops at the first element that is empty. -/
theorem elements_eq (val : Bytes) : elements val = ((val.splitOn 44).takeWhile filled).map trim := by
  induction hn : val.length using Nat.strong_induction_on generalizing val with
  | _ n ih =>
    obtain ⟨w, r, rfl, hw, hr⟩ := exists_first val
    obtain ⟨hskip, hfirst⟩ := first_eq hw hr
    -- the elements behind the first one
    have hsplit : ∃ ls, (w ++ r).splitOn 44 = w :: ls ∧
        (r = [] ∧ ls = [] ∨ ∃ t, r = 44 :: t ∧ ls = t.splitOn 44) := by
      rcases hr with rfl | ⟨t, rfl⟩
      · exact ⟨[], by rw [List.append_nil, List.splitOn_eq_singleton hw], .inl ⟨rfl, rfl⟩⟩
      · exact ⟨t.splitOn 44, splitOn_comma hw t, .inr ⟨t, rfl, rfl⟩⟩
    obtain ⟨ls, hls, htail⟩ := hsplit
    rw [elements, hskip, hfirst, hls]
    by_cases he : w.dropWhile isspace = []
    · rw [if_pos he, List.takeWhile_cons_of_neg (by rw [(dropWhile_eq_nil_iff w).mp he]; decide)]
      rfl
    · have hf : filled w = true := by
        rw [dropWhile_eq_nil_iff, Bool.not_eq_false] at he
        exact he
      rw [if_neg he, List.takeWhile_cons_of_pos hf, List.map_cons, ← List.drop_drop,
        List.drop_left' rfl]
      refine congrArg _ ?_
      rcases htail with ⟨rfl, rfl⟩ | ⟨t, rfl, rfl⟩
      · simp [elements]
      · refine ih t.length ?_ t rfl
        rw [← hn, List.length_append, List.length_cons]
        omega

/-! ## Which lists are complete -/

theorem filter_eq_takeWhile_append {α : Type*} (p : α → Bool) (l : List α) :
    l.filter p = l.takeWhile p ++ (l.dropWhile p).filter p := by
  have hself : (l.takeWhile p).filter p = l.takeWhile p :=
    List.filter_eq_self.mpr fun _ hx => List.mem_takeWhile_imp hx
  calc l.filter p
    _ = (l.takeWhile p ++ l.dropWhile p).filter p := by rw [List.takeWhile_append_dropWhile]
    _ = l.takeWhile p ++ (l.dropWhile p).filter p := by rw [List.filter_append, hself]

/-- The elements up to the first one that fails are all that do not if and only if none that does
not stands behind one that does. -/
theorem takeWhile_eq_filter_iff {α : Type*} (p : α → Bool) (l : List α) :
    l.takeWhile p = l.filter p ↔ l.Pairwise fun a b => p b = true → p a = true := by
  induction l with
  | nil => simp
  | cons a l ih =>
    rw [List.pairwise_cons]
    by_cases ha : p a = true
    · rw [List.takeWhile_cons_of_pos ha, List.filter_cons_of_pos ha, List.cons_inj_right, ih]
      exact ⟨fun h => ⟨fun b _ _ => ha, h⟩, fun h => h.2⟩
    · rw [List.takeWhile_cons_of_neg ha, List.filter_cons_of_neg ha, eq_comm,
        List.filter_eq_nil_iff]
      refine ⟨fun h => ⟨fun b hb hpb => absurd hpb (h b hb), ?_⟩, fun h b hb hpb => ha (h.1 b hb hpb)⟩
      rw [← ih, List.filter_eq_nil_iff.mpr h]
      exact List.eq_nil_iff_forall_not_mem.mpr fun b hb =>
        h b ((List.takeWhile_prefix p).mem hb) (List.mem_takeWhile_imp hb)

/-- No element that is empty stands before one that is not. -/
def NoGap (val : Bytes) : Prop := (val.splitOn 44).Pairwise fun a b => filled b → filled a

theorem elements_eq_fields_iff (val : Bytes) : elements val = fields val ↔ NoGap val := by
  unfold NoGap
  rw [← takeWhile_eq_filter_iff, elements_eq, fields_eq]
  refine ⟨fun h => ?_, fun h => by rw [h]⟩
  have hlen := congrArg List.length h
  rw [List.length_map, List.length_map, filter_eq_takeWhile_append, List.length_append] at hlen
  have hnil : ((val.splitOn 44).dropWhile filled).filter filled = [] :=
    List.length_eq_zero_iff.mp (by omega)
  rw [filter_eq_takeWhile_append, hnil, List.append_nil]

/-- What is wanted of the conversion of a list: the elements that were meant, in an array with
room for them, and the characters that they need. -/
def Complete (val : Bytes) : Prop :=
  ∃ esiz, argvOf val = some ⟨fields val, totlen (fields val), esiz⟩

/-- **A list is complete exactly if no empty element stands before one that is not empty.** -/
theorem argvOf_complete_iff (val : Bytes) : Complete val ↔ NoGap val := by
  obtain ⟨esiz, h⟩ := argvOf_eq val
  rw [← elements_eq_fields_iff, Complete, h]
  constructor
  · rintro ⟨esiz', he⟩
    exact congrArg Ents.ents (Option.some.inj he)
  · intro he
    exact ⟨esiz, by rw [he]⟩

/-- An element behind an empty one is lost. -/
theorem not_complete : ¬ ∀ val, Complete val := by
  intro h
  obtain ⟨esiz, he⟩ := argvOf_eq [97, 44, 44, 98]
  obtain ⟨esiz', hc⟩ := h [97, 44, 44, 98]
  rw [he] at hc
  have hents : elements [97, 44, 44, 98] = fields [97, 44, 44, 98] :=
    congrArg Ents.ents (Option.some.inj hc)
  rw [elements_eq] at hents
  exact absurd hents (by decide)

end Kdm.Getter
