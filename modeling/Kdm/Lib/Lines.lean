import Mathlib.Algebra.Ring.Nat
import Mathlib.Data.List.TakeWhile

/-!
# Delimited streams

A stream of items in which one item `d` ends a segment, as a newline ends a line.

* `segments d s` — the segments of `s` that are ended, without their delimiters, in order.
* `remainder d s` — what follows the last delimiter of `s`.
* `covered d s` — how much of `s` its segments and their delimiters take up.
* `join d ls` — the stream of the segments `ls`.

Principal results: `segments_append` (a stream may be cut anywhere, as long as the remainder is
carried over), `covered_append` and `segments_filter_iff` (which chunks of a stream may be
thrown away without a change of its segments).
-/

namespace Lines

variable {α : Type*} [DecidableEq α] {d x : α} {s t : List α}

/-- The segments that are ended. -/
def segments (d : α) : List α → List (List α)
  | [] => []
  | x :: xs =>
    if x = d then [] :: segments d xs
    else
      match segments d xs with
      | [] => []
      | l :: ls => (x :: l) :: ls

/-- What follows the last delimiter. -/
def remainder (d : α) : List α → List α
  | [] => []
  | x :: xs => if d ∈ x :: xs then remainder d xs else x :: xs

/-- The length of the stream up to and including its last delimiter. -/
def covered (d : α) : List α → Nat
  | [] => 0
  | x :: xs => if d ∈ x :: xs then covered d xs + 1 else 0

/-! ## Streams without a delimiter -/

theorem segments_of_not_mem (h : d ∉ s) : segments d s = [] := by
  induction s with
  | nil => rfl
  | cons x xs ih =>
    have hx : x ≠ d := fun he => h (he ▸ List.mem_cons_self)
    have hxs : segments d xs = [] := ih fun hm => h (List.mem_cons_of_mem _ hm)
    simp [segments, hx, hxs]

theorem segments_eq_nil_iff : segments d s = [] ↔ d ∉ s := by
  refine ⟨fun h => ?_, segments_of_not_mem⟩
  induction s with
  | nil => simp
  | cons x xs ih =>
    unfold segments at h
    split at h
    · cases h
    · rename_i hx
      split at h
      · rename_i hxs
        intro hm
        rcases List.mem_cons.mp hm with rfl | hm
        · exact hx rfl
        · exact ih hxs hm
      · cases h

theorem remainder_of_not_mem (h : d ∉ s) : remainder d s = s := by
  cases s with
  | nil => rfl
  | cons x xs => exact if_neg h

theorem remainder_cons_of_mem (h : d ∈ s) : remainder d (x :: s) = remainder d s :=
  if_pos (List.mem_cons_of_mem _ h)

theorem not_mem_remainder (d : α) (s : List α) : d ∉ remainder d s := by
  induction s with
  | nil => exact List.not_mem_nil
  | cons x xs ih =>
    unfold remainder
    split
    · exact ih
    · assumption

theorem covered_of_not_mem (h : d ∉ s) : covered d s = 0 := by
  cases s with
  | nil => rfl
  | cons x xs => exact if_neg h

/-! ## The first segment -/

theorem segments_cons_append (h : d ∉ s) (t : List α) :
    segments d (s ++ d :: t) = s :: segments d t := by
  induction s with
  | nil => simp [segments]
  | cons x xs ih =>
    have hx : x ≠ d := fun he => h (he ▸ List.mem_cons_self)
    have hxs := ih fun hm => h (List.mem_cons_of_mem _ hm)
    simp [segments, hx, hxs]

theorem remainder_append_cons (s t : List α) : remainder d (s ++ d :: t) = remainder d t := by
  induction s with
  | nil => simp [remainder]
  | cons x xs ih => rw [List.cons_append, remainder_cons_of_mem (by simp), ih]

/-- The first segment and what follows it. -/
theorem takeWhile_append (h : d ∈ s) :
    ∃ t, s = s.takeWhile (· ≠ d) ++ d :: t ∧ s.drop ((s.takeWhile (· ≠ d)).length + 1) = t := by
  induction s with
  | nil => cases h
  | cons x xs ih =>
    by_cases hx : x = d
    · exact ⟨xs, by simp [hx], by simp [hx]⟩
    · obtain ⟨t, ht, hdrop⟩ := ih ((List.mem_cons.mp h).resolve_left (Ne.symm hx))
      refine ⟨t, ?_, ?_⟩
      · rw [List.takeWhile_cons_of_pos (by simpa using hx), List.cons_append, ← ht]
      · rw [List.takeWhile_cons_of_pos (by simpa using hx), List.length_cons, List.drop_succ_cons,
          hdrop]

theorem not_mem_takeWhile (d : α) (s : List α) : d ∉ s.takeWhile (· ≠ d) := by
  intro h
  simpa using List.mem_takeWhile_imp h

/-! ## Cutting a stream -/

/-- **A stream may be cut anywhere**, as long as the remainder of the first part is carried
over to the second. -/
theorem segments_append (s t : List α) :
    segments d (s ++ t) = segments d s ++ segments d (remainder d s ++ t) := by
  induction s with
  | nil => rfl
  | cons x xs ih =>
    by_cases hm : d ∈ xs
    · rw [remainder_cons_of_mem hm, List.cons_append]
      obtain ⟨l, ls, hl⟩ := List.exists_cons_of_ne_nil (mt segments_eq_nil_iff.mp (not_not.mpr hm))
      rw [hl] at ih
      by_cases hx : x = d
      · simp [segments, hx, ih, hl]
      · simp [segments, hx, ih, hl]
    · by_cases hx : x = d
      · have hrem : remainder d (x :: xs) = xs := by
          rw [remainder, if_pos (by simp [hx]), remainder_of_not_mem hm]
        rw [hrem, hx, List.cons_append, segments, if_pos rfl, segments, if_pos rfl,
          segments_of_not_mem hm]
        rfl
      · have hxm : d ∉ x :: xs := by
          intro h
          rcases List.mem_cons.mp h with h | h
          · exact hx h.symm
          · exact hm h
        rw [remainder_of_not_mem hxm, segments_of_not_mem hxm]
        rfl

theorem remainder_append (s t : List α) :
    remainder d (s ++ t) = remainder d (remainder d s ++ t) := by
  induction s with
  | nil => rfl
  | cons x xs ih =>
    by_cases hm : d ∈ x :: xs
    · have hst : d ∈ x :: (xs ++ t) := by
        rw [← List.cons_append]; exact List.mem_append_left _ hm
      rw [List.cons_append, remainder, if_pos hst, ih, remainder, if_pos hm]
    · rw [remainder_of_not_mem hm]

/-- Nothing is ended by a part without a delimiter. -/
theorem segments_append_of_not_mem (h : d ∉ t) : segments d (s ++ t) = segments d s := by
  have hrest : d ∉ remainder d s ++ t := by simp [not_mem_remainder, h]
  rw [segments_append, segments_of_not_mem hrest, List.append_nil]

/-! ## Streams of ended segments -/

/-- The stream of segments, each with its delimiter. -/
def join (d : α) (ls : List (List α)) : List α := ls.flatMap (· ++ [d])

omit [DecidableEq α] in
@[simp] theorem join_nil : join d ([] : List (List α)) = [] := rfl

omit [DecidableEq α] in
@[simp] theorem join_cons (l : List α) (ls : List (List α)) :
    join d (l :: ls) = l ++ d :: join d ls := by
  simp [join]

omit [DecidableEq α] in
@[simp] theorem join_append (ls ls' : List (List α)) : join d (ls ++ ls') = join d ls ++ join d ls' :=
  List.flatMap_append

theorem join_segments (d : α) (s : List α) : join d (segments d s) ++ remainder d s = s := by
  induction s with
  | nil => rfl
  | cons x xs ih =>
    by_cases hx : x = d
    · simp [segments, remainder, hx, ih]
    · by_cases hm : d ∈ xs
      · obtain ⟨l, ls, hl⟩ := List.exists_cons_of_ne_nil (mt segments_eq_nil_iff.mp (not_not.mpr hm))
        rw [hl] at ih
        simpa [segments, remainder, hx, hm, hl] using ih
      · have hxm : d ∉ x :: xs := by simp [hm, Ne.symm hx]
        rw [segments_of_not_mem hxm, remainder_of_not_mem hxm]
        rfl

theorem length_segments (d : α) (s : List α) : (segments d s).length = s.count d := by
  induction s with
  | nil => rfl
  | cons x xs ih =>
    by_cases hx : x = d
    · rw [segments, if_pos hx, List.length_cons, ih, hx, List.count_cons_self]
    · rw [List.count_cons_of_ne hx, segments, if_neg hx, ← ih]
      cases segments d xs with
      | nil => rfl
      | cons l ls => rfl

theorem mem_of_mem_segments {l : List α} (h : l ∈ segments d s) (hx : x ∈ l) : x ∈ s := by
  rw [← join_segments d s, List.mem_append]
  exact Or.inl (List.mem_flatMap.mpr ⟨l, h, List.mem_append_left _ hx⟩)

theorem mem_of_mem_remainder (h : x ∈ remainder d s) : x ∈ s := by
  rw [← join_segments d s, List.mem_append]
  exact Or.inr h

theorem not_mem_of_mem_segments {l : List α} (h : l ∈ segments d s) : d ∉ l := by
  induction s generalizing l with
  | nil => cases h
  | cons x xs ih =>
    unfold segments at h
    split at h
    · rcases List.mem_cons.mp h with rfl | h
      · exact List.not_mem_nil
      · exact ih h
    · rename_i hx
      split at h
      · cases h
      · rename_i l' ls hl
        rcases List.mem_cons.mp h with rfl | h
        · intro hm
          rcases List.mem_cons.mp hm with hm | hm
          · exact hx hm.symm
          · exact ih (hl ▸ List.mem_cons_self) hm
        · exact ih (hl ▸ List.mem_cons_of_mem _ h)

/-- A stream that ends with the delimiter consists of ended segments. -/
theorem exists_join (h : s.getLast? = some d) : ∃ ls, (∀ l ∈ ls, d ∉ l) ∧ s = join d ls := by
  obtain ⟨t, rfl⟩ := List.getLast?_eq_some_iff.mp h
  refine ⟨segments d (t ++ [d]), fun l => not_mem_of_mem_segments, ?_⟩
  have hjoin := join_segments d (t ++ [d])
  rw [remainder_append_cons, remainder, List.append_nil] at hjoin
  exact hjoin.symm

/-- The part before the first delimiter. -/
theorem takeWhile_eq_iff {p : List α} :
    d ∈ s ∧ s.takeWhile (· ≠ d) = p ↔ d ∉ p ∧ ∃ t, s = p ++ d :: t := by
  constructor
  · rintro ⟨hm, rfl⟩
    obtain ⟨t, ht, -⟩ := takeWhile_append hm
    exact ⟨not_mem_takeWhile d s, t, ht⟩
  · rintro ⟨hp, t, rfl⟩
    refine ⟨by simp, ?_⟩
    rw [List.takeWhile_append_of_pos fun a ha => by simpa using fun he : a = d => hp (he ▸ ha)]
    simp

theorem dropWhile_append_cons {p : List α} (hp : d ∉ p) (t : List α) :
    (p ++ d :: t).dropWhile (· ≠ d) = d :: t := by
  rw [List.dropWhile_append_of_pos fun a ha => by simpa using fun he : a = d => hp (he ▸ ha)]
  simp

/-- The first delimiter tells the parts on both sides of it. -/
theorem append_cons_inj {p p' : List α} (hp : d ∉ p) (hp' : d ∉ p')
    (h : p ++ d :: s = p' ++ d :: t) : p = p' ∧ s = t := by
  obtain ⟨-, htake⟩ := takeWhile_eq_iff.mpr ⟨hp, s, rfl⟩
  obtain ⟨-, htake'⟩ := takeWhile_eq_iff.mpr ⟨hp', t, rfl⟩
  have he : p = p' := by rw [← htake, h, htake']
  subst he
  exact ⟨rfl, (List.cons.inj (List.append_cancel_left h)).2⟩

/-- So does the last one. -/
theorem append_cons_inj_last {p p' : List α} (hp : d ∉ p) (hp' : d ∉ p')
    (h : s ++ d :: p = t ++ d :: p') : s = t ∧ p = p' := by
  have hrev := congrArg List.reverse h
  rw [List.reverse_append, List.reverse_append, List.reverse_cons, List.reverse_cons,
    List.append_assoc, List.append_assoc] at hrev
  obtain ⟨h1, h2⟩ := append_cons_inj (by simpa using hp) (by simpa using hp') hrev
  exact ⟨List.reverse_inj.mp h2, List.reverse_inj.mp h1⟩

/-! ## Lengths -/

theorem covered_append (s t : List α) :
    covered d (s ++ t) = if d ∈ t then s.length + covered d t else covered d s := by
  induction s with
  | nil =>
    split
    · simp
    · rename_i h
      exact covered_of_not_mem h
  | cons x xs ih =>
    rw [List.cons_append, covered, ih, covered]
    by_cases ht : d ∈ t
    · simp [ht]
      omega
    · simp [ht]

theorem covered_eq_sum (s : List α) :
    covered d s = ((segments d s).map fun l => l.length + 1).sum := by
  induction s with
  | nil => rfl
  | cons x xs ih =>
    by_cases hx : x = d
    · simp [covered, segments, hx, ih]
      omega
    · by_cases hm : d ∈ xs
      · obtain ⟨l, ls, hl⟩ := List.exists_cons_of_ne_nil (mt segments_eq_nil_iff.mp (not_not.mpr hm))
        rw [hl] at ih
        simp [covered, segments, hx, hm, hl, ih]
        omega
      · have hxm : d ∉ x :: xs := by simp [hm, Ne.symm hx]
        rw [covered_of_not_mem hxm, segments_of_not_mem hxm]
        rfl

/-- A part without a delimiter lengthens the segment that it is put into. -/
theorem covered_insert (p : List α) (hs : d ∉ s) (t : List α) :
    covered d (p ++ (s ++ t)) = covered d (p ++ t) + if d ∈ t then s.length else 0 := by
  rw [covered_append, covered_append, covered_append]
  by_cases ht : d ∈ t
  · simp [ht]
    omega
  · simp [ht, hs]

/-! ## Streams that lose chunks -/

/-- The chunks with a delimiter in them. -/
def ended (d : α) (chunks : List (List α)) : List (List α) := chunks.filter (d ∈ ·)

/-- After a chunk without a delimiter there is none any more. -/
def Steady (d : α) : List (List α) → Prop
  | [] => True
  | c :: cs => (d ∈ c ∨ d ∉ cs.flatten) ∧ Steady d cs

theorem not_mem_ended {chunks : List (List α)} (h : d ∉ chunks.flatten) : ended d chunks = [] := by
  rw [ended, List.filter_eq_nil_iff]
  intro c hc hd
  exact h (List.mem_flatten.mpr ⟨c, hc, by simpa using hd⟩)

theorem segments_ended (p : List α) {chunks : List (List α)} (h : Steady d chunks) :
    segments d (p ++ (ended d chunks).flatten) = segments d (p ++ chunks.flatten) := by
  induction chunks generalizing p with
  | nil => rfl
  | cons c cs ih =>
    by_cases hc : d ∈ c
    · have hcons : ended d (c :: cs) = c :: ended d cs := List.filter_cons_of_pos (by simpa using hc)
      rw [hcons, List.flatten_cons, List.flatten_cons, ← List.append_assoc, ← List.append_assoc]
      exact ih (p ++ c) h.2
    · have hcs : d ∉ cs.flatten := h.1.resolve_left hc
      have hall : d ∉ (c :: cs).flatten := by simp [hc, hcs]
      rw [not_mem_ended hall, segments_append_of_not_mem hall, List.flatten_nil, List.append_nil]

theorem covered_ended_le (p : List α) (chunks : List (List α)) :
    covered d (p ++ (ended d chunks).flatten) ≤ covered d (p ++ chunks.flatten) := by
  induction chunks generalizing p with
  | nil => exact Nat.le_refl _
  | cons c cs ih =>
    by_cases hc : d ∈ c
    · have hcons : ended d (c :: cs) = c :: ended d cs := List.filter_cons_of_pos (by simpa using hc)
      rw [hcons, List.flatten_cons, List.flatten_cons, ← List.append_assoc, ← List.append_assoc]
      exact ih (p ++ c)
    · have hcons : ended d (c :: cs) = ended d cs := List.filter_cons_of_neg (by simpa using hc)
      rw [hcons, List.flatten_cons, covered_insert p hc]
      exact Nat.le_trans (ih p) (Nat.le_add_right _ _)

theorem steady_of_segments (p : List α) {chunks : List (List α)} (hne : ∀ c ∈ chunks, c ≠ [])
    (h : segments d (p ++ (ended d chunks).flatten) = segments d (p ++ chunks.flatten)) :
    Steady d chunks := by
  induction chunks generalizing p with
  | nil => trivial
  | cons c cs ih =>
    have hcs : ∀ c' ∈ cs, c' ≠ [] := fun c' hc' => hne c' (List.mem_cons_of_mem _ hc')
    by_cases hc : d ∈ c
    · have hcons : ended d (c :: cs) = c :: ended d cs := List.filter_cons_of_pos (by simpa using hc)
      rw [hcons, List.flatten_cons, List.flatten_cons, ← List.append_assoc, ← List.append_assoc] at h
      exact ⟨.inl hc, ih (p ++ c) hcs h⟩
    · have hcons : ended d (c :: cs) = ended d cs := List.filter_cons_of_neg (by simpa using hc)
      -- the segments have grown by the chunk that was thrown away
      have hlen : covered d (p ++ (ended d cs).flatten) = covered d (p ++ (c ++ cs.flatten)) := by
        rw [covered_eq_sum, covered_eq_sum, ← hcons, h, List.flatten_cons]
      rw [covered_insert p hc] at hlen
      have hle := covered_ended_le (d := d) p cs
      have hpos : 0 < c.length := List.length_pos_iff.mpr (hne c List.mem_cons_self)
      have hrest : d ∉ cs.flatten := by
        intro hm
        rw [if_pos hm] at hlen
        omega
      refine ⟨.inr hrest, ih p hcs ?_⟩
      rw [not_mem_ended hrest, segments_append_of_not_mem hrest, List.flatten_nil, List.append_nil]

/-- **Which chunks may be thrown away**: a stream that keeps the chunks with a delimiter only has
the same segments if and only if no delimiter comes after a chunk without one. -/
theorem segments_filter_iff {chunks : List (List α)} (hne : ∀ c ∈ chunks, c ≠ []) :
    segments d (ended d chunks).flatten = segments d chunks.flatten ↔ Steady d chunks :=
  ⟨steady_of_segments [] hne, segments_ended []⟩

/-! ## Separated streams -/

theorem not_mem_of_mem_splitOn {l : List α} (h : l ∈ s.splitOn d) : d ∉ l := by
  induction s generalizing l with
  | nil => rw [List.mem_singleton.mp h]; exact List.not_mem_nil
  | cons x xs ih =>
    rw [List.splitOn_cons_eq_if_modifyHead] at h
    split at h
    · rcases List.mem_cons.mp h with rfl | h
      · exact List.not_mem_nil
      · exact ih h
    · rename_i hx
      obtain ⟨l', ls, hl⟩ := List.exists_cons_of_ne_nil (List.splitOn_ne_nil d xs)
      rw [hl, List.modifyHead_cons] at h
      rcases List.mem_cons.mp h with rfl | h
      · rw [List.mem_cons, not_or]
        exact ⟨fun he => hx (by simp [he]), ih (hl ▸ List.mem_cons_self)⟩
      · exact ih (hl ▸ List.mem_cons_of_mem _ h)

theorem mem_of_mem_splitOn {l : List α} (h : l ∈ s.splitOn d) (hx : x ∈ l) : x ∈ s := by
  have hs : [d].intercalate (s.splitOn d) = s := List.intercalate_splitOn d
  rw [← hs]
  generalize s.splitOn d = ls at h
  induction ls with
  | nil => cases h
  | cons l' ls ih =>
    cases ls with
    | nil => rw [List.mem_singleton.mp h] at hx; simpa using hx
    | cons l'' ls =>
      rw [List.intercalate_cons_cons]
      rcases List.mem_cons.mp h with rfl | h
      · simp [hx]
      · exact List.mem_append_right _ (ih h)

omit [DecidableEq α] in
theorem mem_intercalate {ls : List (List α)} (h : x ∈ [d].intercalate ls) :
    x = d ∨ ∃ l ∈ ls, x ∈ l := by
  induction ls with
  | nil => cases h
  | cons l ls ih =>
    cases ls with
    | nil => exact .inr ⟨l, List.mem_cons_self, by simpa using h⟩
    | cons l' ls =>
      rw [List.intercalate_cons_cons, List.append_assoc] at h
      rcases List.mem_append.mp h with h | h
      · exact .inr ⟨l, List.mem_cons_self, h⟩
      · rcases List.mem_append.mp h with h | h
        · exact .inl (List.mem_singleton.mp h)
        · exact (ih h).imp_right fun ⟨l'', hl, hx⟩ => ⟨l'', List.mem_cons_of_mem _ hl, hx⟩

omit [DecidableEq α] in
/-- Items that each begin with the separator. -/
theorem append_flatMap_eq_intercalate {β : Type*} (g : β → List α) (l : List β) (a : List α) :
    a ++ l.flatMap (fun b => d :: g b) = [d].intercalate (a :: l.map g) := by
  induction l generalizing a with
  | nil => simp
  | cons b l ih =>
    rw [List.map_cons, List.intercalate_cons_cons, ← ih, List.flatMap_cons]
    simp

end Lines
