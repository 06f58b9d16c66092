import Kdm.Ini.Merge

/-!
# `iniEntry` in memory

The same function with pointers into a block: the loops run until they meet a byte that they stop
at, whether the text is over or not, and reading behind the block fails.  On a text that ends in a
newline it is the function on strings (`iniEntry_eq`); this is what the text must end in a newline
for.
-/

namespace Kdm.Ini.Memory

open Ipc (Bytes)
open Block

/-- `for (; *p == *t; t++, p++);` -/
def matchText : Bytes → Bytes → Option (Bytes × Bytes)
  | a :: p, b :: t => if a = b then matchText p t else some (a :: p, b :: t)
  | _, _ => none

/-- `while (*p++ != '\n');` -/
def nextLine (p : Bytes) : Option Bytes := (advance (· != 10) p).map List.tail

/-- The value was found, or the walk goes on. -/
inductive Round where
  | found (cb ce : Bytes)
  | next (c : Cursor) (p : Bytes)

/-- A line that begins with a bracket; `q` is behind it. -/
def header (sec : Bytes) (c : Cursor) (q : Bytes) : Option Round := do
  let m ← matchText q sec
  let p ← nextLine m.1
  return .next (c.pass (m.2.head? = some 0 ∧ m.1.head? = some 93) p) p

/-- Another line of the section. -/
def entry (key : Bytes) (c : Cursor) (p : Bytes) : Option Round := do
  let m ← matchText p key
  let p ← advance isBlank m.1
  if m.2.head? = some 0 ∧ p.head? = some 61 then
    let cb ← advance isBlank p.tail
    let ce ← nextLine cb
    return .found cb ce
  else
    let p ← nextLine p
    return .next (c.pass c.insect p) p

def round (sec key : Bytes) (c : Cursor) (p : Bytes) : Option Round := do
  match ← advance isBlank p with
  | [] => none
  | x :: q =>
    if x = 10 then return .next c q
    else if x = 91 then header sec c q
    else if c.insect then entry key c (x :: q)
    else
      let p ← nextLine (x :: q)
      return .next (c.pass c.insect p) p

section Progress

variable {sec key p q : Bytes} {c c' : Cursor}

theorem length_matchText {t : Bytes} {m : Bytes × Bytes} (h : matchText p t = some m) :
    m.1.length ≤ p.length := by
  induction p generalizing t with
  | nil => cases t <;> cases h
  | cons a p ih =>
    cases t with
    | nil => cases h
    | cons b t =>
      rw [matchText] at h
      split at h
      · have hlen := ih h
        rw [List.length_cons]
        omega
      · cases h
        exact Nat.le_refl _

theorem length_nextLine (h : nextLine p = some q) : q.length < p.length := by
  obtain ⟨r, hr, rfl⟩ := Option.map_eq_some_iff.mp h
  obtain ⟨a, x, r, rfl, rfl, -, -⟩ := advance_eq_some hr
  rw [List.tail_cons, List.length_append, List.length_cons]
  omega

/-- Every round gets on. -/
theorem length_round (h : round sec key c p = some (.next c' q)) : q.length < p.length := by
  obtain ⟨p₁, hp, h⟩ := Option.bind_eq_some_iff.mp h
  have hlen := length_advance hp
  cases p₁ with
  | nil => cases h
  | cons x r =>
    rw [List.length_cons] at hlen
    dsimp only at h
    split at h
    · cases h
      omega
    split at h
    · obtain ⟨m, hm, h⟩ := Option.bind_eq_some_iff.mp h
      obtain ⟨p₂, hp₂, h⟩ := Option.bind_eq_some_iff.mp h
      have hlen₁ := length_matchText hm
      have hlen₂ := length_nextLine hp₂
      cases h
      omega
    split at h
    · obtain ⟨m, hm, h⟩ := Option.bind_eq_some_iff.mp h
      obtain ⟨p₂, hp₂, h⟩ := Option.bind_eq_some_iff.mp h
      have hlen₁ := length_matchText hm
      have hlen₂ := length_advance hp₂
      rw [List.length_cons] at hlen₁
      split at h
      · obtain ⟨cb, -, h⟩ := Option.bind_eq_some_iff.mp h
        obtain ⟨ce, -, h⟩ := Option.bind_eq_some_iff.mp h
        cases h
      · obtain ⟨p₃, hp₃, h⟩ := Option.bind_eq_some_iff.mp h
        have hlen₃ := length_nextLine hp₃
        cases h
        omega
    · obtain ⟨p₂, hp₂, h⟩ := Option.bind_eq_some_iff.mp h
      have hlen₂ := length_nextLine hp₂
      rw [List.length_cons] at hlen₂
      cases h
      omega

end Progress

/-- How the walk ends, and where. -/
inductive Walk where
  | found (cb ce : Bytes)
  | missing (c : Cursor) (p : Bytes)

/-- `while (*p)` -/
def walk (sec key : Bytes) (c : Cursor) (p : Bytes) : Option Walk :=
  if p.head? = none then none
  else if p.head? = some 0 then some (.missing c p)
  else
    match _h : round sec key c p with
    | none => none
    | some (.found cb ce) => some (.found cb ce)
    | some (.next c q) => walk sec key c q
  termination_by p.length
  decreasing_by exact length_round _h

/-- Where and how an entry is written; `strlen` is one more loop. -/
def insertAt (data sec key : Bytes) : Walk → Option Insert
  | .found cb ce => do
    let e ← advance (· != 0) ce
    return ⟨cb, ce, (data.length - ce.length) + (ce.length - e.length), 0, 0, 0⟩
  | .missing c p =>
    let len := data.length - p.length
    match c.secinsert, c.pastinsert with
    | some p, _ => some ⟨p, p, len, 0, 0, key.length + 1⟩
    | none, some p => some ⟨p, p, len, 1, sec.length + 3, key.length + 1⟩
    | none, none => some ⟨data, data, len, 0, sec.length + 3, key.length + 1⟩

/-- The walk over a block; a pointer that is null is not walked. -/
def walkData (data : Option Bytes) (sec key : Bytes) : Option Walk :=
  match data with
  | none => some (.missing .start [])
  | some p => walk (sec ++ [0]) (key ++ [0]) .start p

/-- `iniEntry`; `none` if it reads behind the block. -/
def iniEntry (malloc : Nat → Bool) (data : Option Bytes) (sec key : Bytes) (value : Option Bytes) :
    Option (Option Bytes) := do
  let w ← walkData data sec key
  match value with
  | none =>
    match w with
    | .found cb ce =>
      let value := (upto cb ce).dropLast.rdropWhile isBlank
      return if malloc (value.length + 1) then some (value ++ [0]) else none
    | .missing _ _ => return none
  | some value =>
    let r ← insertAt (data.getD []) sec key w
    return if malloc (r.nlen value + 1) then some (r.written data sec key value ++ [0]) else data

/-! ## Texts that end in a newline -/

/-- Every line of the text is ended. -/
def LinesEnd (p : Bytes) : Prop := p = [] ∨ p.getLast? = some 10

section LinesEnd

variable {p q t junk : Bytes}

theorem LinesEnd.mem (h : LinesEnd p) (hne : p ≠ []) : 10 ∈ p :=
  List.mem_of_getLast? (h.resolve_left hne)

theorem LinesEnd.suffix (h : LinesEnd p) (hq : q <:+ p) : LinesEnd q := by
  obtain ⟨a, rfl⟩ := hq
  by_cases hne : q = []
  · exact .inl hne
  · right
    have hlast := h.resolve_left (List.append_ne_nil_of_right_ne_nil a hne)
    rwa [List.getLast?_append_of_ne_nil a hne] at hlast

/-- The loop over the blanks stops before the end of the text. -/
theorem advance_blanks (p junk : Bytes) :
    advance isBlank (p ++ 0 :: junk) = some (skipBlanks p ++ 0 :: junk) :=
  advance_dropWhile rfl p junk

theorem nextLine_eq (h : 10 ∈ p) (r : Bytes) : nextLine (p ++ r) = some (Ini.nextLine p ++ r) := by
  obtain ⟨t, ht, -⟩ := Lines.takeWhile_append h
  have hnot := Lines.not_mem_takeWhile 10 p
  have hline := nextLine_append hnot t
  rw [← ht] at hline
  have hadv : advance (· != 10) (p ++ r) = some (10 :: (t ++ r)) := by
    nth_rewrite 1 [ht]
    rw [List.append_assoc]
    refine advance_append (fun x hx => ?_) rfl _
    rw [bne_iff_ne]
    rintro rfl
    exact hnot hx
  rw [hline]
  unfold nextLine
  rw [hadv]
  rfl

/-- A key without a newline is told from the text before the text is over. -/
theorem matchText_eq (h10 : 10 ∈ q) (hq : 0 ∉ q) (ht : 10 ∉ t) (r : Bytes) :
    matchText (q ++ r) (t ++ [0]) = some ((Ini.matchText q t).1 ++ r, (Ini.matchText q t).2 ++ [0]) ∧
      10 ∈ (Ini.matchText q t).1 := by
  fun_induction Ini.matchText q t with
  | case1 p a t ih =>
    rw [List.mem_cons, not_or] at hq ht
    rw [List.cons_append, List.cons_append, matchText, if_pos rfl]
    exact ih ((List.mem_cons.mp h10).resolve_left ht.1) hq.2 ht.2
  | case2 a p b t hab =>
    rw [List.cons_append, List.cons_append, matchText, if_neg hab]
    exact ⟨rfl, h10⟩
  | case3 p t hpt =>
    refine ⟨?_, h10⟩
    cases p with
    | nil => cases h10
    | cons a p =>
      cases t with
      | nil =>
        have ha : a ≠ 0 := fun he => hq (he ▸ List.mem_cons_self)
        rw [List.nil_append, List.cons_append, matchText, if_neg ha]
      | cons b t => exact (hpt a p b t rfl rfl).elim

end LinesEnd

/-! ## The walk over a text that ends in a newline -/

/-- The same pointers in a block that goes on behind the text. -/
def liftCursor (r : Bytes) (c : Cursor) : Cursor :=
  ⟨c.insect, c.secinsert.map (· ++ r), c.pastinsert.map (· ++ r)⟩

def liftWalk (r : Bytes) : Ini.Walk → Walk
  | .found cb ce => .found (cb ++ r) (ce ++ r)
  | .missing c => .missing (liftCursor r c) r

@[simp] theorem liftCursor_insect (r : Bytes) (c : Cursor) : (liftCursor r c).insect = c.insect := rfl

theorem liftCursor_pass (r : Bytes) (c : Cursor) (b : Bool) (p : Bytes) :
    liftCursor r (c.pass b p) = (liftCursor r c).pass b (p ++ r) := by
  unfold Cursor.pass
  split <;> rfl

section Walk

variable {sec key p q junk : Bytes} {c : Cursor} {x : UInt8}

theorem matchText_snd_suffix (q t : Bytes) : (Ini.matchText q t).2 <:+ t := by
  fun_induction Ini.matchText q t with
  | case1 p a t ih => exact ih.trans (List.suffix_cons a t)
  | case2 => exact List.suffix_refl _
  | case3 => exact List.suffix_refl _

/-- The zero at the end of a key is reached when all of it was matched. -/
theorem head_end_iff {t : Bytes} (ht : 0 ∉ t) : (t ++ [0]).head? = some 0 ↔ t = [] := by
  cases t with
  | nil => exact iff_of_true rfl rfl
  | cons b t => exact iff_of_false (fun h => ht (by cases h; exact List.mem_cons_self)) (by simp)

theorem mem_skipBlanks (h : 10 ∈ p) : 10 ∈ skipBlanks p := by
  obtain ⟨b, hb, hsplit⟩ := skipBlanks_split p
  rw [hsplit] at h
  exact (List.mem_append.mp h).resolve_left fun hm => absurd (hb 10 hm) (by decide)

/-- What a line of the walk needs of its two ends. -/
theorem matched (hkey : 10 ∉ key) (hkey0 : 0 ∉ key) (h10 : 10 ∈ q) (hq : 0 ∉ q) (r : Bytes) :
    ∃ p t, Ini.matchText q key = (p, t) ∧ matchText (q ++ r) (key ++ [0]) = some (p ++ r, t ++ [0]) ∧
      10 ∈ p ∧ 0 ∉ p ∧ 0 ∉ t :=
  ⟨_, _, rfl, (matchText_eq h10 hq hkey r).1, (matchText_eq h10 hq hkey r).2,
    fun hm => hq ((matchText_suffix q key).mem hm),
    fun hm => hkey0 ((matchText_snd_suffix q key).mem hm)⟩

theorem header_eq (hsec : 10 ∉ sec) (hsec0 : 0 ∉ sec) (h10 : 10 ∈ q) (hq : 0 ∉ q) (r : Bytes) :
    header (sec ++ [0]) (liftCursor r c) (q ++ r) =
      let m := Ini.matchText q sec
      some (.next (liftCursor r (c.pass (m.2 = [] ∧ m.1.head? = some 93) (Ini.nextLine m.1)))
        (Ini.nextLine m.1 ++ r)) := by
  obtain ⟨p, t, hm, hmem, hp, -, ht⟩ := matched hsec hsec0 h10 hq r
  have hhead : (p ++ r).head? = p.head? := List.head?_append_of_ne_nil p (List.ne_nil_of_mem hp)
  have hline := nextLine_eq hp r
  unfold header
  simp only [Option.bind_eq_bind, hmem, Option.bind_some, hline, hm, liftCursor_pass,
    head_end_iff ht, hhead]
  rfl

theorem entry_found (hkey : 10 ∉ key) (hkey0 : 0 ∉ key) (h10 : 10 ∈ q) (hq : 0 ∉ q)
    (h : (Ini.matchText q key).2 = [] ∧ (skipBlanks (Ini.matchText q key).1).head? = some 61) :
    let cb := skipBlanks (skipBlanks (Ini.matchText q key).1).tail
    entry (key ++ [0]) c (q ++ 0 :: junk) =
      some (.found (cb ++ 0 :: junk) (Ini.nextLine cb ++ 0 :: junk)) := by
  obtain ⟨p, t, hm, hmem, hp, -, ht⟩ := matched hkey hkey0 h10 hq (0 :: junk)
  rw [hm] at h ⊢
  obtain ⟨s, hs⟩ := List.head?_eq_some_iff.mp h.2
  have hs10 : 10 ∈ s := by
    have hmem := mem_skipBlanks hp
    rw [hs] at hmem
    exact (List.mem_cons.mp hmem).resolve_left (by decide)
  have hline := nextLine_eq (mem_skipBlanks hs10) (0 :: junk)
  unfold entry
  simp only [Option.bind_eq_bind, hmem, Option.bind_some, advance_blanks, hs, head_end_iff ht,
    List.cons_append, List.head?_cons, List.tail_cons, hline]
  exact if_pos ⟨h.1, trivial⟩

theorem entry_missed (hkey : 10 ∉ key) (hkey0 : 0 ∉ key) (h10 : 10 ∈ q) (hq : 0 ∉ q)
    (h : ¬((Ini.matchText q key).2 = [] ∧ (skipBlanks (Ini.matchText q key).1).head? = some 61)) :
    let p := Ini.nextLine (skipBlanks (Ini.matchText q key).1)
    entry (key ++ [0]) (liftCursor (0 :: junk) c) (q ++ 0 :: junk) =
      some (.next (liftCursor (0 :: junk) (c.pass c.insect p)) (p ++ 0 :: junk)) := by
  obtain ⟨p, t, hm, hmem, hp, -, ht⟩ := matched hkey hkey0 h10 hq (0 :: junk)
  rw [hm] at h ⊢
  have hline := nextLine_eq (mem_skipBlanks hp) (0 :: junk)
  have hhead : (skipBlanks p ++ 0 :: junk).head? = (skipBlanks p).head? :=
    List.head?_append_of_ne_nil _ (List.ne_nil_of_mem (mem_skipBlanks hp))
  unfold entry
  simp only [Option.bind_eq_bind, hmem, Option.bind_some, advance_blanks, head_end_iff ht, hhead,
    hline, liftCursor_pass]
  exact if_neg h

theorem round_cons (hs : skipBlanks p = x :: q) :
    round sec key c (p ++ 0 :: junk) =
      if x = 10 then some (.next c (q ++ 0 :: junk))
      else if x = 91 then header sec c (q ++ 0 :: junk)
      else if c.insect then entry key c (x :: q ++ 0 :: junk)
      else (nextLine (x :: q ++ 0 :: junk)).bind fun p => some (.next (c.pass c.insect p) p) := by
  unfold round
  rw [advance_blanks, hs]
  rfl

theorem walk_end (p : Bytes) : walk sec key c (0 :: p) = some (.missing c (0 :: p)) := by
  rw [walk]
  rfl

theorem walk_text (hne : p ≠ []) (hp0 : 0 ∉ p) (r : Bytes) :
    walk sec key c (p ++ r) =
      match round sec key c (p ++ r) with
      | none => none
      | some (.found cb ce) => some (.found cb ce)
      | some (.next c q) => walk sec key c q := by
  obtain ⟨x, t, rfl⟩ := List.exists_cons_of_ne_nil hne
  have hx : x ≠ 0 := fun he => hp0 (he ▸ List.mem_cons_self)
  rw [walk, if_neg (by simp), if_neg (by simpa using hx)]
  split
  · rename_i h
    rw [h]
  · rename_i h
    rw [h]
  · rename_i h
    rw [h]

/-- **The walk in memory** is the walk over the text. -/
theorem walk_eq (hsec : 10 ∉ sec) (hsec0 : 0 ∉ sec) (hkey : 10 ∉ key) (hkey0 : 0 ∉ key)
    (hp : LinesEnd p) (hp0 : 0 ∉ p) :
    walk (sec ++ [0]) (key ++ [0]) (liftCursor (0 :: junk) c) (p ++ 0 :: junk) =
      some (liftWalk (0 :: junk) (Ini.walk sec key c p)) := by
  have hrest {p x q} (hp : LinesEnd p) (hp0 : 0 ∉ p) (hs : skipBlanks p = x :: q) :
      p ≠ [] ∧ LinesEnd (x :: q) ∧ 10 ∈ x :: q ∧ 0 ∉ x :: q := by
    have hsuff : x :: q <:+ p := hs ▸ skipBlanks_suffix p
    have hend := hp.suffix hsuff
    refine ⟨?_, hend, hend.mem (List.cons_ne_nil x q), fun hm => hp0 (hsuff.mem hm)⟩
    rintro rfl
    cases hs
  fun_induction Ini.walk sec key c p with
  | case1 c p hs =>
    have hnil : p = [] := by
      by_contra hne
      have hmem := mem_skipBlanks (hp.mem hne)
      rw [hs] at hmem
      cases hmem
    rw [hnil]
    exact walk_end junk
  | case2 c p q hs ih =>
    obtain ⟨hne, hend, -, h0⟩ := hrest hp hp0 hs
    rw [walk_text hne hp0, round_cons hs, if_pos rfl]
    exact ih (hend.suffix (List.suffix_cons _ _)) fun hm => h0 (List.mem_cons_of_mem _ hm)
  | case3 c p q m hs h10 ih =>
    obtain ⟨hne, hend, hmem, h0⟩ := hrest hp hp0 hs
    have hq10 : 10 ∈ q := (List.mem_cons.mp hmem).resolve_left (by decide)
    have hq0 : 0 ∉ q := fun hm => h0 (List.mem_cons_of_mem _ hm)
    have hsuff : Ini.nextLine m.1 <:+ 91 :: q :=
      ((List.tail_suffix _).trans (List.dropWhile_suffix _)).trans
        ((matchText_suffix q sec).trans (List.suffix_cons _ _))
    rw [walk_text hne hp0, round_cons hs, if_neg h10, if_pos rfl,
      header_eq hsec hsec0 hq10 hq0]
    exact ih (hend.suffix hsuff) fun hm => h0 (hsuff.mem hm)
  | case4 c p x q hs h10 h91 hin m p' h cb =>
    obtain ⟨hne, hend, hmem, h0⟩ := hrest hp hp0 hs
    rw [walk_text hne hp0, round_cons hs, if_neg h10, if_neg h91, liftCursor_insect, if_pos hin,
      entry_found hkey hkey0 hmem h0 h]
    rfl
  | case5 c p x q hs h10 h91 hin m p' h ih =>
    obtain ⟨hne, hend, hmem, h0⟩ := hrest hp hp0 hs
    have hsuff : Ini.nextLine p' <:+ x :: q :=
      ((List.tail_suffix _).trans (List.dropWhile_suffix _)).trans
        ((skipBlanks_suffix _).trans (matchText_suffix _ key))
    rw [walk_text hne hp0, round_cons hs, if_neg h10, if_neg h91, liftCursor_insect, if_pos hin,
      entry_missed hkey hkey0 hmem h0 h]
    exact ih (hend.suffix hsuff) fun hm => h0 (hsuff.mem hm)
  | case6 c p x q hs h10 h91 hin ih =>
    obtain ⟨hne, hend, hmem, h0⟩ := hrest hp hp0 hs
    have hsuff : Ini.nextLine (x :: q) <:+ x :: q :=
      (List.tail_suffix _).trans (List.dropWhile_suffix _)
    rw [walk_text hne hp0, round_cons hs, if_neg h10, if_neg h91, liftCursor_insect, if_neg hin,
      nextLine_eq hmem, Option.bind_some]
    rw [liftCursor_pass] at ih
    exact ih (hend.suffix hsuff) fun hm => h0 (hsuff.mem hm)

end Walk

/-! ## The function on a text that ends in a newline -/

/-- The pointers that the walk leaves are in the text. -/
def InText (s : Bytes) : Ini.Walk → Prop
  | .found cb ce => cb <:+ s ∧ 10 ∈ cb ∧ ce = Ini.nextLine cb
  | .missing c => ∀ p, c.secinsert = some p ∨ c.pastinsert = some p → p <:+ s

section Text

variable {sec key value s p junk : Bytes} {c : Cursor} {w : Ini.Walk}

theorem inText_pass {b : Bool} (hc : InText s (.missing c)) (hp : p <:+ s) :
    InText s (.missing (c.pass b p)) := by
  intro p' hp'
  unfold Cursor.pass at hp'
  split at hp'
  · rcases hp' with h | h
    · cases h
      exact hp
    · exact hc p' (.inr h)
  · rcases hp' with h | h
    · exact hc p' (.inl h)
    · cases h
      exact hp

theorem nextLine_suffix (p : Bytes) : Ini.nextLine p <:+ p :=
  (List.tail_suffix _).trans (List.dropWhile_suffix _)

theorem walk_inText (hp : LinesEnd p) (hps : p <:+ s) (hc : InText s (.missing c)) :
    InText s (Ini.walk sec key c p) := by
  have hskip {p x q} (hs : skipBlanks p = x :: q) : x :: q <:+ p := hs ▸ skipBlanks_suffix p
  fun_induction Ini.walk sec key c p with
  | case1 => exact hc
  | case2 c p q hs ih =>
    have hsuff := (List.suffix_cons _ _).trans (hskip hs)
    exact ih (hp.suffix hsuff) (hsuff.trans hps) hc
  | case3 c p q m hs h10 ih =>
    have hsuff : Ini.nextLine m.1 <:+ p :=
      (nextLine_suffix _).trans
        ((matchText_suffix q sec).trans ((List.suffix_cons _ _).trans (hskip hs)))
    exact ih (hp.suffix hsuff) (hsuff.trans hps) (inText_pass hc (hsuff.trans hps))
  | case4 c p x q hs h10 h91 hin m p' h cb =>
    obtain ⟨t, ht⟩ := List.head?_eq_some_iff.mp h.2
    have hp' : p' <:+ p := (skipBlanks_suffix _).trans ((matchText_suffix _ key).trans (hskip hs))
    have ht10 : 10 ∈ t := by
      have hmem := (hp.suffix hp').mem (by rw [ht]; exact List.cons_ne_nil _ _)
      rw [ht] at hmem
      exact (List.mem_cons.mp hmem).resolve_left (by decide)
    refine ⟨((skipBlanks_suffix _).trans (List.tail_suffix _)).trans (hp'.trans hps), ?_, rfl⟩
    apply mem_skipBlanks
    rw [ht]
    exact ht10
  | case5 c p x q hs h10 h91 hin m p' h ih =>
    have hsuff : Ini.nextLine p' <:+ p := (nextLine_suffix _).trans
      ((skipBlanks_suffix _).trans ((matchText_suffix _ key).trans (hskip hs)))
    exact ih (hp.suffix hsuff) (hsuff.trans hps) (inText_pass hc (hsuff.trans hps))
  | case6 c p x q hs h10 h91 hin ih =>
    have hsuff : Ini.nextLine (x :: q) <:+ p := (nextLine_suffix _).trans (hskip hs)
    exact ih (hp.suffix hsuff) (hsuff.trans hps) (inText_pass hc (hsuff.trans hps))

/-- The insertion fits every text that ends in a newline, whatever the key is. -/
theorem insertAt_fits (sec key : Bytes) (hw : InText s w) :
    ∃ a m, (Ini.insertAt s sec key w).Fits (some s) a m := by
  cases w with
  | found cb ce =>
    obtain ⟨⟨a, ha⟩, -, hce⟩ := hw
    obtain ⟨m, hm⟩ := nextLine_suffix cb
    rw [← hce] at hm
    have hs : s = a ++ (m ++ ce) := by rw [hm, ha]
    refine ⟨a, m, hs, hm.symm, ?_⟩
    have hlen := congrArg List.length hs
    rw [List.length_append, List.length_append] at hlen
    show s.length - ce.length + ce.length = s.length
    omega
  | missing c =>
    have hfits {r : Insert} {p : Bytes} (hp : p <:+ s) (hcb : r.cb = p) (hce : r.ce = p)
        (hlen : r.len = s.length) : ∃ a m, r.Fits (some s) a m := by
      obtain ⟨a, ha⟩ := hp
      exact ⟨a, [], by rw [hce]; exact ha.symm, by rw [hcb, hce]; rfl, hlen⟩
    obtain ⟨b, secinsert, pastinsert⟩ := c
    cases secinsert with
    | some p => exact hfits (hw p (.inl rfl)) rfl rfl rfl
    | none =>
      cases pastinsert with
      | some p => exact hfits (hw p (.inr rfl)) rfl rfl rfl
      | none => exact hfits (List.suffix_refl s) rfl rfl rfl

def liftInsert (r : Bytes) (i : Insert) : Insert := { i with cb := i.cb ++ r, ce := i.ce ++ r }

theorem insertAt_eq (hs0 : 0 ∉ s) (hw : InText s w) :
    insertAt (s ++ 0 :: junk) sec key (liftWalk (0 :: junk) w) =
      some (liftInsert (0 :: junk) (Ini.insertAt s sec key w)) := by
  cases w with
  | found cb ce =>
    obtain ⟨hcb, -, hce⟩ := hw
    have hce0 : 0 ∉ ce := fun hm => hs0 (hcb.mem ((nextLine_suffix cb).mem (hce ▸ hm)))
    have hadv : advance (· != 0) (ce ++ 0 :: junk) = some (0 :: junk) := by
      refine advance_append (fun x hx => ?_) rfl junk
      rw [bne_iff_ne]
      rintro rfl
      exact hce0 hx
    unfold insertAt liftWalk
    simp only [hadv, Option.bind_eq_bind, Option.bind_some]
    unfold liftInsert Ini.insertAt
    simp only [List.length_append, Nat.add_sub_add_right, Nat.add_sub_cancel]
    rfl
  | missing c =>
    have hlen : (s ++ 0 :: junk).length - (0 :: junk).length = s.length := by
      rw [List.length_append, Nat.add_sub_cancel]
    have hat (p ce : Bytes) (len ll sl kl : Nat) (h : len = s.length) :
        some (Insert.mk p ce len ll sl kl) = some (Insert.mk p ce s.length ll sl kl) := by
      rw [h]
    obtain ⟨b, secinsert, pastinsert⟩ := c
    cases secinsert with
    | some p => exact hat _ _ _ _ _ _ hlen
    | none =>
      cases pastinsert with
      | some p => exact hat _ _ _ _ _ _ hlen
      | none => exact hat _ _ _ _ _ _ hlen

theorem written_lift {i : Insert} {a m : Bytes} (h : i.Fits (some s) a m) (r : Bytes) :
    (liftInsert r i).written (some (s ++ r)) sec key value = i.written (some s) sec key value := by
  have hsplit : s = a ++ (m ++ i.ce) := h.split
  have hlen := congrArg List.length hsplit
  rw [List.length_append, List.length_append] at hlen
  have hl : i.len = s.length := h.len
  rw [h.written]
  unfold Insert.written liftInsert
  simp only [Option.getD_some, Option.isSome_some, if_true, h.cb, List.length_append,
    Nat.add_sub_add_right]
  have hbefore : (s ++ r).take (s.length - (m.length + i.ce.length)) = a := by
    rw [hsplit, List.append_assoc]
    refine List.take_left' ?_
    simp
  have hafter : (i.ce ++ r).take (i.len - (s.length - i.ce.length)) = i.ce := by
    refine List.take_left' ?_
    omega
  rw [hbefore, hafter]
  rfl

theorem nlen_lift (i : Insert) (r : Bytes) : (liftInsert r i).nlen value = i.nlen value := by
  unfold Insert.nlen liftInsert
  simp only [List.length_append, Nat.add_sub_add_right]

/-- The value between the two pointers. -/
theorem value_eq {cb : Bytes} (h : 10 ∈ cb) (r : Bytes) :
    (upto (cb ++ r) (Ini.nextLine cb ++ r)).dropLast.rdropWhile isBlank = valueAt cb := by
  obtain ⟨t, ht, -⟩ := Lines.takeWhile_append h
  have hnot := Lines.not_mem_takeWhile 10 cb
  rw [ht, nextLine_append hnot, valueAt_append hnot, List.append_assoc, List.cons_append,
    ← List.singleton_append, ← List.append_assoc, upto_append, List.dropLast_concat]

variable (malloc : Nat → Bool) (hsec : 10 ∉ sec) (hsec0 : 0 ∉ sec) (hkey : 10 ∉ key)
  (hkey0 : 0 ∉ key) (hs : LinesEnd s) (hs0 : 0 ∉ s)

include hsec hsec0 hkey hkey0 hs hs0

theorem walkData_eq (junk : Bytes) :
    walkData (some (s ++ 0 :: junk)) sec key =
        some (liftWalk (0 :: junk) (Ini.walk sec key .start s)) ∧
      InText s (Ini.walk sec key .start s) := by
  refine ⟨walk_eq (c := .start) hsec hsec0 hkey hkey0 hs hs0, ?_⟩
  refine walk_inText hs (List.suffix_refl s) ?_
  rintro p (h | h) <;> cases h

/-- **Looking up in memory** is looking up in the text. -/
theorem lookup_eq :
    iniEntry malloc (some (s ++ 0 :: junk)) sec key none =
      some ((Ini.iniEntry malloc (some s) sec key none).map (· ++ [0])) := by
  obtain ⟨hwalk, htext⟩ := walkData_eq hsec hsec0 hkey hkey0 hs hs0 junk
  have hlookup : Ini.iniEntry malloc (some s) sec key none =
      match Ini.walk sec key .start s with
      | .found cb _ => if malloc ((valueAt cb).length + 1) then some (valueAt cb) else none
      | .missing _ => none := rfl
  unfold iniEntry
  rw [hlookup, hwalk, Option.bind_eq_bind, Option.bind_some]
  cases hw : Ini.walk sec key .start s with
  | found cb ce =>
    rw [hw] at htext
    obtain ⟨-, h10, rfl⟩ := htext
    dsimp only [liftWalk]
    rw [value_eq h10]
    show some (if malloc _ then _ else _) = _
    split <;> rfl
  | missing c => rfl

/-- **Storing in memory** is storing into the text. -/
theorem store_eq (value : Bytes) :
    iniEntry malloc (some (s ++ 0 :: junk)) sec key (some value) =
      some (if malloc (allocated (some s) sec key value) then
        some ((insertion (some s) sec key).written (some s) sec key value ++ [0])
      else some (s ++ 0 :: junk)) := by
  obtain ⟨hwalk, htext⟩ := walkData_eq hsec hsec0 hkey hkey0 hs hs0 junk
  obtain ⟨a, m, hfits⟩ := insertAt_fits sec key htext
  unfold iniEntry
  rw [hwalk, Option.bind_eq_bind, Option.bind_some]
  dsimp only
  rw [Option.getD_some, insertAt_eq hs0 htext, Option.bind_eq_bind, Option.bind_some, nlen_lift,
    written_lift hfits]
  rfl

end Text

/-! ## What the precondition gives -/

/-- A buffer that is null, or the text in it ends in a newline. -/
def Ready (data : Option Bytes) : Prop :=
  ∀ p ∈ data, ∃ s junk, p = s ++ 0 :: junk ∧ 0 ∉ s ∧ s.getLast? = some 10

section Ready

variable {sec key value s a m : Bytes} {data : Option Bytes} {i : Insert}

theorem ready_text (h0 : 0 ∉ s) (h : s.getLast? = some 10) : Ready (some (s ++ [0])) := by
  rintro p ⟨⟩
  exact ⟨s, [], rfl, h0, h⟩

theorem not_mem_added (hsec0 : 0 ∉ sec) (hkey0 : 0 ∉ key) : 0 ∉ i.added sec key := by
  have hs : 0 ∉ sec.take (i.sl - 3) := fun h => hsec0 (List.mem_of_mem_take h)
  have hk : 0 ∉ key.take (i.kl - 1) := fun h => hkey0 (List.mem_of_mem_take h)
  unfold Insert.added
  split
  · split
    · split <;> simp [hs, hk]
    · simp [hk]
  · simp

/-- What is written ends in a newline again. -/
theorem written_ready (hsec0 : 0 ∉ sec) (hkey0 : 0 ∉ key) (hv0 : 0 ∉ value)
    (hfits : i.Fits data a m) (h0 : 0 ∉ data.getD []) (h : LinesEnd (data.getD [])) :
    Ready (some (i.written data sec key value ++ [0])) := by
  have hce : i.ce <:+ data.getD [] := by
    rw [hfits.split, ← List.append_assoc]
    exact List.suffix_append _ _
  have ha : 0 ∉ a := fun hm => h0 (by rw [hfits.split]; exact List.mem_append_left _ hm)
  have hce0 : 0 ∉ i.ce := fun hm => h0 (hce.mem hm)
  rw [hfits.written]
  apply ready_text
  · have hadded := not_mem_added (i := i) hsec0 hkey0
    simp [ha, hadded, hv0, hce0]
  · rcases h.suffix hce with hnil | hlast
    · simp [hnil]
    · rw [List.getLast?_append, hlast]
      rfl

theorem lookup_ready (malloc : Nat → Bool) (hsec : 10 ∉ sec) (hsec0 : 0 ∉ sec) (hkey : 10 ∉ key)
    (hkey0 : 0 ∉ key) (hdata : Ready data) : ∃ r, iniEntry malloc data sec key none = some r := by
  cases data with
  | none => exact ⟨_, rfl⟩
  | some p =>
    obtain ⟨s, junk, rfl, hs0, hs⟩ := hdata p rfl
    exact ⟨_, lookup_eq malloc hsec hsec0 hkey hkey0 (.inr hs) hs0⟩

/-- **The function does not read behind a buffer that is ready**, and leaves one that is ready. -/
theorem store_ready (malloc : Nat → Bool) (hsec : 10 ∉ sec) (hsec0 : 0 ∉ sec) (hkey : 10 ∉ key)
    (hkey0 : 0 ∉ key) (hv0 : 0 ∉ value) (hdata : Ready data) :
    ∃ r, iniEntry malloc data sec key (some value) = some r ∧ Ready r := by
  cases data with
  | none =>
    have hfits : (Insert.mk [] [] 0 0 (sec.length + 3) (key.length + 1)).Fits none [] [] :=
      ⟨rfl, rfl, rfl⟩
    have hready := written_ready hsec0 hkey0 hv0 hfits (by simp) (.inl rfl)
    refine ⟨_, rfl, ?_⟩
    split
    · exact hready
    · exact hdata
  | some p =>
    obtain ⟨s, junk, rfl, hs0, hs⟩ := hdata p rfl
    obtain ⟨-, htext⟩ := walkData_eq hsec hsec0 hkey hkey0 (.inr hs) hs0 junk
    obtain ⟨a, m, hfits⟩ := insertAt_fits sec key htext
    refine ⟨_, store_eq malloc hsec hsec0 hkey hkey0 (.inr hs) hs0 value, ?_⟩
    split
    · exact written_ready hsec0 hkey0 hv0 hfits hs0 (.inr hs)
    · exact hdata

end Ready

end Kdm.Ini.Memory
