import Mathlib.Data.List.Basic

/-!
# Splitting into words

A string with a terminator is split into words by two passes over each of them: the first one
counts the characters of the word, the second one stores them.  A pointer is what is left of the
string from there on, and nothing can be read behind the terminator.  Both passes are loops with
the same jumps at backslashes and quotes.

* `Scanner` — the characters with a meaning, and where a backslash leads.
* `countWord`, `copyWord` — the passes; `countWord_eq`: they stay in step.
* `words` — the loop over the words.
* `Reads` — what the second pass stores from a pointer on, one part after the other.
* `joined` — a writer of words; `words_joined`: what it writes is split into the words again.
-/

/-- The quotes. -/
inductive Quote where
  | single
  | double
  deriving DecidableEq

/-- The characters with a meaning; `jump` tells what a backslash stands for and where the pass goes
on, inside of a quote or outside of both. -/
structure Scanner (α : Type*) where
  nul : α
  bslash : α
  quote : Quote → α
  blank : α → Bool
  jump : Option Quote → α → List α → Option (α × List α)
  jump_le : ∀ {m c p x q}, jump m c p = some (x, q) → q.length ≤ p.length

namespace Scanner

variable {α : Type*} [DecidableEq α] (S : Scanner α)

/-! ## The passes -/

/-- The first pass between quotes. -/
def countQuoted (k : Quote) (p : List α) (n : Nat) : Option (Nat × List α) :=
  match p with
  | [] => none
  | c :: p =>
    if c = S.quote k ∨ c = S.nul then some (n, c :: p)
    else if c = S.bslash then
      match _h : S.jump (some k) c p with
      | none => none
      | some (_, q) => countQuoted k q (n + 1)
    else countQuoted k p (n + 1)
termination_by p.length
decreasing_by
  · exact Nat.lt_succ_of_le (S.jump_le _h)
  · exact Nat.lt_succ_self _

/-- The second pass between quotes. -/
def copyQuoted (k : Quote) (p : List α) : Option (List α × List α) :=
  match p with
  | [] => none
  | c :: p =>
    if c = S.quote k ∨ c = S.nul then some ([], c :: p)
    else if c = S.bslash then
      match _h : S.jump (some k) c p with
      | none => none
      | some (x, q) => (copyQuoted k q).map fun r => (x :: r.1, r.2)
    else (copyQuoted k p).map fun r => (c :: r.1, r.2)
termination_by p.length
decreasing_by
  · exact Nat.lt_succ_of_le (S.jump_le _h)
  · exact Nat.lt_succ_self _

/-- One round of the first pass. -/
def countStep (p : List α) (n : Nat) : Option (Nat × List α) :=
  match p with
  | [] => none
  | c :: p =>
    if c = S.bslash then (S.jump none c p).map fun r => (n + 1, r.1 :: r.2)
    else if c = S.quote .single then S.countQuoted .single p n
    else if c = S.quote .double then S.countQuoted .double p n
    else some (n + 1, c :: p)

/-- One round of the second pass. -/
def copyStep (p : List α) : Option (List α × List α) :=
  match p with
  | [] => none
  | c :: p =>
    if c = S.bslash then (S.jump none c p).map fun r => ([r.1], r.1 :: r.2)
    else if c = S.quote .single then S.copyQuoted .single p
    else if c = S.quote .double then S.copyQuoted .double p
    else some ([c], c :: p)

/-! ## One character between quotes -/

theorem copyQuoted_end {k : Quote} {c : α} (hc : c = S.quote k ∨ c = S.nul) (p : List α) :
    S.copyQuoted k (c :: p) = some ([], c :: p) := by
  rw [copyQuoted, if_pos hc]

theorem copyQuoted_char {k : Quote} {c : α} (hq : c ≠ S.quote k) (h0 : c ≠ S.nul)
    (hb : c ≠ S.bslash) (p : List α) :
    S.copyQuoted k (c :: p) = (S.copyQuoted k p).map fun r => (c :: r.1, r.2) := by
  rw [copyQuoted, if_neg (not_or.mpr ⟨hq, h0⟩), if_neg hb]

theorem copyQuoted_jump {k : Quote} {x : α} {p q : List α} (hq : S.bslash ≠ S.quote k)
    (h0 : S.bslash ≠ S.nul) (h : S.jump (some k) S.bslash p = some (x, q)) :
    S.copyQuoted k (S.bslash :: p) = (S.copyQuoted k q).map fun r => (x :: r.1, r.2) := by
  rw [copyQuoted, if_neg (not_or.mpr ⟨hq, h0⟩), if_pos rfl]
  split
  · rename_i hn
    rw [h] at hn
    cases hn
  · rename_i hs
    rw [h] at hs
    cases hs
    rfl

/-! ## One round outside of quotes -/

theorem copyStep_jump {x : α} {p q : List α} (h : S.jump none S.bslash p = some (x, q)) :
    S.copyStep (S.bslash :: p) = some ([x], x :: q) := by
  rw [copyStep, if_pos rfl, h]
  rfl

theorem copyStep_char {c : α} (hb : c ≠ S.bslash) (hq : ∀ k, c ≠ S.quote k) (p : List α) :
    S.copyStep (c :: p) = some ([c], c :: p) := by
  rw [copyStep, if_neg hb, if_neg (hq _), if_neg (hq _)]

/-! ## The passes stay in step -/

theorem map_cons {β γ : Type*} (o : Option (List β × γ)) (c : β) (n : Nat) :
    (o.map fun r => (c :: r.1, r.2)).map (fun r => (n + r.1.length, r.2)) =
      o.map fun r => (n + 1 + r.1.length, r.2) := by
  cases o with
  | none => rfl
  | some r =>
    simp only [Option.map_some, List.length_cons]
    congr 2
    omega

theorem countQuoted_eq (k : Quote) (p : List α) (n : Nat) :
    S.countQuoted k p n = (S.copyQuoted k p).map fun r => (n + r.1.length, r.2) := by
  fun_induction countQuoted S k p n with
  | case1 => rw [copyQuoted, Option.map_none]
  | case2 n c p hc =>
    rw [S.copyQuoted_end hc]
    rfl
  | case3 n p hc h =>
    rw [copyQuoted, if_neg hc, if_pos rfl]
    split
    · rfl
    · rename_i hs
      rw [h] at hs
      cases hs
  | case4 n p x q hc h ih =>
    rw [S.copyQuoted_jump (not_or.mp hc).1 (not_or.mp hc).2 h, map_cons, ih]
  | case5 n c p hc hb ih =>
    rw [S.copyQuoted_char (not_or.mp hc).1 (not_or.mp hc).2 hb, map_cons, ih]

theorem countStep_eq (p : List α) (n : Nat) :
    S.countStep p n = (S.copyStep p).map fun r => (n + r.1.length, r.2) := by
  cases p with
  | nil => rfl
  | cons c p =>
    rw [countStep, copyStep]
    split
    · rw [Option.map_map]
      rfl
    · split
      · exact S.countQuoted_eq _ p n
      · split
        · exact S.countQuoted_eq _ p n
        · rfl

theorem length_copyQuoted {k : Quote} {p q v : List α} (h : S.copyQuoted k p = some (v, q)) :
    q.length ≤ p.length := by
  fun_induction copyQuoted S k p generalizing v with
  | case1 => cases h
  | case2 => cases h; exact Nat.le_refl _
  | case3 => cases h
  | case4 p hc x q' hj ih =>
    obtain ⟨r, hr, he⟩ := Option.map_eq_some_iff.mp h
    cases he
    exact Nat.le_succ_of_le (Nat.le_trans (ih hr) (S.jump_le hj))
  | case5 c p hc hb ih =>
    obtain ⟨r, hr, he⟩ := Option.map_eq_some_iff.mp h
    cases he
    exact Nat.le_succ_of_le (ih hr)

theorem length_copyStep {p q v : List α} (h : S.copyStep p = some (v, q)) :
    q.length ≤ p.length := by
  cases p with
  | nil => cases h
  | cons c p =>
    rw [copyStep] at h
    split at h
    · obtain ⟨⟨x, r⟩, hr, he⟩ := Option.map_eq_some_iff.mp h
      cases he
      exact Nat.succ_le_succ (S.jump_le hr)
    · split at h
      · exact Nat.le_succ_of_le (S.length_copyQuoted h)
      · split at h
        · exact Nat.le_succ_of_le (S.length_copyQuoted h)
        · cases h
          exact Nat.le_refl _

theorem length_countStep {p q : List α} {n k : Nat} (h : S.countStep p n = some (k, q)) :
    q.length ≤ p.length := by
  rw [countStep_eq] at h
  obtain ⟨r, hr, he⟩ := Option.map_eq_some_iff.mp h
  cases he
  exact S.length_copyStep hr

/-! ## Words -/

/-- The end of a word. -/
def ends (c : α) : Bool := c == S.nul || S.blank c

theorem ends_nul : S.ends S.nul = true := by simp [ends]

theorem ends_blank {c : α} (hc : S.blank c = true) : S.ends c = true := by simp [ends, hc]

theorem ends_false {c : α} (h0 : c ≠ S.nul) (hc : S.blank c = false) : S.ends c = false := by
  simp [ends, h0, hc]

/-- The first pass over a word. -/
def countWord (p : List α) (n : Nat) : Option (Nat × List α) :=
  match _h : S.countStep p n with
  | none => none
  | some (_, []) => none
  | some (_, [_]) => none
  | some (k, _ :: c :: q) => if S.ends c then some (k, c :: q) else countWord (c :: q) k
termination_by p.length
decreasing_by
  have := S.length_countStep _h
  simp only [List.length_cons] at this ⊢
  omega

/-- The second pass over a word. -/
def copyWord (p : List α) : Option (List α × List α) :=
  match _h : S.copyStep p with
  | none => none
  | some (_, []) => none
  | some (_, [_]) => none
  | some (v, _ :: c :: q) =>
    if S.ends c then some (v, c :: q) else (copyWord (c :: q)).map fun r => (v ++ r.1, r.2)
termination_by p.length
decreasing_by
  have := S.length_copyStep _h
  simp only [List.length_cons] at this ⊢
  omega

theorem copyWord_none {p : List α} (h : S.copyStep p = none) : S.copyWord p = none := by
  rw [copyWord]
  split <;> simp_all

/-- The round ends at the terminator or behind it. -/
theorem copyWord_short {p q v : List α} (h : S.copyStep p = some (v, q)) (hq : q.length < 2) :
    S.copyWord p = none := by
  rw [copyWord]
  split
  · rfl
  · rfl
  · rfl
  · rename_i heq
    rw [h] at heq
    cases heq
    simp only [List.length_cons] at hq
    omega

theorem copyWord_cons {p q v : List α} {x c : α} (h : S.copyStep p = some (v, x :: c :: q)) :
    S.copyWord p = if S.ends c then some (v, c :: q)
      else (S.copyWord (c :: q)).map fun r => (v ++ r.1, r.2) := by
  rw [copyWord]
  split
  · rename_i heq
    rw [h] at heq
    cases heq
  · rename_i heq
    rw [h] at heq
    cases heq
  · rename_i heq
    rw [h] at heq
    cases heq
  · rename_i heq
    rw [h] at heq
    cases heq
    rfl

/-- **The passes stay in step**: the first one counts what the second one stores. -/
theorem countWord_eq (p : List α) (n : Nat) :
    S.countWord p n = (S.copyWord p).map fun r => (n + r.1.length, r.2) := by
  fun_induction countWord S p n with
  | case1 n p h =>
    rw [countStep_eq] at h
    rw [S.copyWord_none (Option.map_eq_none_iff.mp h)]
    rfl
  | case2 n p k h =>
    rw [countStep_eq] at h
    obtain ⟨r, hr, he⟩ := Option.map_eq_some_iff.mp h
    rw [S.copyWord_short hr (by simp [(Prod.mk.inj he).2])]
    rfl
  | case3 n p k c h =>
    rw [countStep_eq] at h
    obtain ⟨r, hr, he⟩ := Option.map_eq_some_iff.mp h
    rw [S.copyWord_short hr (by simp [(Prod.mk.inj he).2])]
    rfl
  | case4 p n k x c q h hc =>
    rw [countStep_eq] at h
    obtain ⟨⟨v, _⟩, hr, he⟩ := Option.map_eq_some_iff.mp h
    obtain ⟨rfl, rfl⟩ := Prod.mk.inj he
    rw [S.copyWord_cons hr, if_pos hc]
    rfl
  | case5 p n k x c q h hc ih =>
    rw [countStep_eq] at h
    obtain ⟨⟨v, _⟩, hr, he⟩ := Option.map_eq_some_iff.mp h
    obtain ⟨rfl, rfl⟩ := Prod.mk.inj he
    rw [S.copyWord_cons hr, if_neg hc, ih, Option.map_map]
    refine congrArg (fun f => Option.map f (S.copyWord (c :: q))) (funext fun r => ?_)
    simp only [Function.comp, List.length_append, Nat.add_assoc]

theorem length_copyWord {p q v : List α} (h : S.copyWord p = some (v, q)) :
    q.length < p.length := by
  fun_induction copyWord S p generalizing v with
  | case1 => cases h
  | case2 => cases h
  | case3 => cases h
  | case4 p s x c q' hs hc =>
    cases h
    have := S.length_copyStep hs
    simp only [List.length_cons] at this ⊢
    omega
  | case5 p s x c q' hs hc ih =>
    obtain ⟨r, hr, he⟩ := Option.map_eq_some_iff.mp h
    cases he
    have hlt := ih hr
    have := S.length_copyStep hs
    simp only [List.length_cons] at this hlt
    omega

theorem length_countWord {p q : List α} {n k : Nat} (h : S.countWord p n = some (k, q)) :
    q.length < p.length := by
  rw [countWord_eq] at h
  obtain ⟨r, hr, he⟩ := Option.map_eq_some_iff.mp h
  cases he
  exact S.length_copyWord hr

/-! ## The list -/

/-- The loop over the words; a word that does not fit into the memory for it is an error. -/
def words (p : List α) : Option (List (List α)) :=
  match p with
  | [] => none
  | c :: p =>
    if c = S.nul then some []
    else if S.blank c then words p
    else
      match _h : S.countWord (c :: p) 0, S.copyWord (c :: p) with
      | some (k, q), some (v, _) => if v.length ≤ k then (words q).map (v :: ·) else none
      | _, _ => none
termination_by p.length
decreasing_by
  · exact Nat.lt_succ_self _
  · exact S.length_countWord _h

theorem words_nul (p : List α) : S.words (S.nul :: p) = some [] := by rw [words, if_pos rfl]

theorem words_blank {c : α} (h0 : c ≠ S.nul) (hc : S.blank c = true) (p : List α) :
    S.words (c :: p) = S.words p := by
  rw [words, if_neg h0, if_pos hc]

/-- The first pass never stands in the way of the second one. -/
theorem words_word {c : α} {p : List α} (h0 : c ≠ S.nul) (hc : S.blank c = false) :
    S.words (c :: p) = (S.copyWord (c :: p)).bind fun r => (S.words r.2).map (r.1 :: ·) := by
  rw [words, if_neg h0, if_neg (by simp [hc])]
  split
  · rename_i k q v q' hn hw
    rw [countWord_eq, hw, Option.map_some, Option.some.injEq, Prod.mk.injEq] at hn
    obtain ⟨rfl, rfl⟩ := hn
    rw [hw, Option.bind_some, if_pos (by simp)]
  · rename_i hno
    cases hw : S.copyWord (c :: p) with
    | none => rfl
    | some r =>
      refine (hno (0 + r.1.length) r.2 r.1 r.2 ?_ hw).elim
      rw [countWord_eq, hw]
      rfl

/-- From the pointer on, the second pass stores `v` and ends at `r`; it may be there already. -/
inductive Reads : List α → List α → List α → Prop
  | here {c : α} {q : List α} (hc : S.ends c = true) : Reads (c :: q) [] (c :: q)
  | word {c : α} {q r v : List α} (hc : S.ends c = false)
      (h : S.copyWord (c :: q) = some (v, r)) : Reads (c :: q) v r

variable {S}

/-- One round of the second pass. -/
theorem Reads.step {p q r v v' : List α} {c x : α} (hq : S.Reads q v' r) (hc : S.ends c = false)
    (h : S.copyStep (c :: p) = some (v, x :: q)) :
    S.Reads (c :: p) (v ++ v') r := by
  refine .word hc ?_
  cases hq with
  | here hd => rw [S.copyWord_cons h, if_pos hd, List.append_nil]
  | word hd hw =>
    rw [S.copyWord_cons h, if_neg (by simp [hd]), hw]
    rfl

theorem Reads.cons {p v r : List α} (h : S.Reads p v r) : ∃ c q, p = c :: q := by
  cases h with
  | here => exact ⟨_, _, rfl⟩
  | word => exact ⟨_, _, rfl⟩

/-- A word at the pointer, and then the rest. -/
theorem Reads.words {p r v : List α} {c : α} (hc : S.ends c = false) (h : S.Reads (c :: p) v r) :
    S.words (c :: p) = (S.words r).map (v :: ·) := by
  obtain ⟨h0, hb⟩ : c ≠ S.nul ∧ S.blank c = false := by simpa [ends] using hc
  cases h with
  | here hend => simp [hc] at hend
  | word _ hw =>
    rw [S.words_word h0 hb, hw]
    rfl

/-! ## Writing words -/

/-- The characters of a word as `enc` writes them, in double quotes where one of them needs these. -/
def written (S : Scanner α) (enc : α → List α) (quoted : α → Bool) (w : List α) : List α :=
  if w.any quoted then S.quote .double :: (w.flatMap enc ++ [S.quote .double]) else w.flatMap enc

/-- The words with a separator between them. -/
def joined (S : Scanner α) (enc : α → List α) (quoted : α → Bool) (sep : α) : List (List α) → List α
  | [] => []
  | [w] => written S enc quoted w
  | w :: ws => written S enc quoted w ++ sep :: joined S enc quoted sep ws

omit [DecidableEq α] in
theorem joined_cons (enc : α → List α) (quoted : α → Bool) (sep : α) (w w' : List α)
    (ws : List (List α)) : joined S enc quoted sep (w :: w' :: ws) =
      written S enc quoted w ++ sep :: joined S enc quoted sep (w' :: ws) := rfl

/-- What is written for a character is read back as the character: between double quotes, and
outside of them if the character does not need these. -/
structure Encodes (S : Scanner α) (enc : α → List α) (quoted : α → Bool) (c : α) : Prop where
  within : ∀ d p, S.copyQuoted .double (enc c ++ d :: p) =
    (S.copyQuoted .double (d :: p)).map fun r => (c :: r.1, r.2)
  outside : quoted c = false → ∀ d p, ∃ e q x, enc c ++ d :: p = e :: q ∧ S.ends e = false ∧
    S.copyStep (e :: q) = some ([c], x :: d :: p)

variable {enc : α → List α} {quoted : α → Bool} {sep : α}

theorem copyQuoted_flatMap {w : List α} (hw : ∀ c ∈ w, S.Encodes enc quoted c) (p : List α) :
    S.copyQuoted .double (w.flatMap enc ++ S.quote .double :: p) =
      some (w, S.quote .double :: p) := by
  induction w with
  | nil => exact S.copyQuoted_end (.inl rfl) p
  | cons c w ih =>
    have ih := ih fun d hd => hw d (List.mem_cons_of_mem _ hd)
    rw [List.flatMap_cons, List.append_assoc]
    obtain ⟨d, q, hdq⟩ : ∃ d q, w.flatMap enc ++ S.quote .double :: p = d :: q :=
      List.exists_cons_of_ne_nil (by simp)
    rw [hdq] at ih ⊢
    rw [(hw c List.mem_cons_self).within, ih]
    rfl

theorem reads_flatMap {w : List α} (hw : ∀ c ∈ w, S.Encodes enc quoted c)
    (hq : w.any quoted = false) {t r v : List α} (ht : S.Reads t v r) :
    S.Reads (w.flatMap enc ++ t) (w ++ v) r := by
  induction w with
  | nil => exact ht
  | cons c w ih =>
    rw [List.any_cons, Bool.or_eq_false_iff] at hq
    have ih := ih (fun d hd => hw d (List.mem_cons_of_mem _ hd)) hq.2
    rw [List.flatMap_cons, List.append_assoc]
    obtain ⟨d, q, hdq⟩ := ih.cons
    rw [hdq] at ih ⊢
    obtain ⟨e, q', x, he, hend, hstep⟩ := (hw c List.mem_cons_self).outside hq.1 d q
    rw [he]
    exact ih.step hend hstep

/-- The quotes are told from the other characters with a meaning. -/
structure Distinct (S : Scanner α) : Prop where
  ends_quote : S.ends (S.quote .double) = false
  quote_bslash : S.quote .double ≠ S.bslash
  quote_quote : S.quote .double ≠ S.quote .single

/-- A written word is read back. -/
theorem reads_written (hS : S.Distinct) {w : List α} (hw : ∀ c ∈ w, S.Encodes enc quoted c)
    {c : α} (hc : S.ends c = true) (q : List α) :
    S.Reads (written S enc quoted w ++ c :: q) w (c :: q) := by
  have hend : S.Reads (c :: q) [] (c :: q) := .here hc
  rw [written]
  split
  · rw [List.cons_append, List.append_assoc]
    have hstep : S.copyStep (S.quote .double :: (w.flatMap enc ++ ([S.quote .double] ++ c :: q))) =
        some (w, S.quote .double :: c :: q) := by
      rw [copyStep, if_neg hS.quote_bslash, if_neg hS.quote_quote, if_pos rfl]
      exact copyQuoted_flatMap hw (c :: q)
    have := hend.step hS.ends_quote hstep
    rwa [List.append_nil] at this
  · rename_i hq
    have := reads_flatMap hw (Bool.eq_false_iff.mpr hq) hend
    rwa [List.append_nil] at this

/-- A word that is not empty is written as a word. -/
theorem written_cons (hS : S.Distinct) {w : List α} (hne : w ≠ [])
    (hw : ∀ c ∈ w, S.Encodes enc quoted c) (c : α) (q : List α) :
    ∃ e p, written S enc quoted w ++ c :: q = e :: p ∧ S.ends e = false := by
  rw [written]
  split
  · exact ⟨_, _, rfl, hS.ends_quote⟩
  · rename_i hq
    cases w with
    | nil => exact absurd rfl hne
    | cons d w =>
      rw [List.any_cons, Bool.not_eq_true, Bool.or_eq_false_iff] at hq
      rw [List.flatMap_cons, List.append_assoc]
      obtain ⟨e, q', he⟩ : ∃ e q', w.flatMap enc ++ c :: q = e :: q' :=
        List.exists_cons_of_ne_nil (by simp)
      obtain ⟨e', p, _, hp, hend, _⟩ := (hw d List.mem_cons_self).outside hq.1 e q'
      rw [he]
      exact ⟨e', p, hp, hend⟩

theorem words_written (hS : S.Distinct) {w : List α} (hne : w ≠ [])
    (hw : ∀ c ∈ w, S.Encodes enc quoted c) {c : α} (hc : S.ends c = true) (q : List α) :
    S.words (written S enc quoted w ++ c :: q) = (S.words (c :: q)).map (w :: ·) := by
  have hreads := reads_written hS hw hc q
  obtain ⟨e, p, hp, he⟩ := written_cons hS hne hw c q
  rw [hp] at hreads ⊢
  exact hreads.words he

/-- **Written words** are split into the words again. -/
theorem words_joined (hS : S.Distinct) (hsep : S.blank sep = true) (h0 : sep ≠ S.nul)
    {ws : List (List α)} (hws : ∀ w ∈ ws, w ≠ [] ∧ ∀ c ∈ w, S.Encodes enc quoted c) :
    S.words (joined S enc quoted sep ws ++ [S.nul]) = some ws := by
  induction ws with
  | nil => exact S.words_nul []
  | cons w ws ih =>
    have hw := hws w List.mem_cons_self
    cases ws with
    | nil =>
      rw [joined, words_written hS hw.1 hw.2 S.ends_nul, S.words_nul]
      rfl
    | cons w' ws =>
      rw [joined_cons, List.append_assoc, List.cons_append,
        words_written hS hw.1 hw.2 (S.ends_blank hsep), S.words_blank h0 hsep,
        ih fun v hv => hws v (List.mem_cons_of_mem _ hv)]
      rfl

end Scanner
