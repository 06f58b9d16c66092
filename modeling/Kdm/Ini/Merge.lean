import Kdm.Ini.Store
import Kdm.Lib.Block

/-!
# Merging ini files

`iniMerge` (`inifile.c`) goes through a new text with one pointer and puts every entry it finds into
the old one.  The block of the new text ends in a zero, and nothing behind it can be read.

* `mergeStep` — one round of the loop.
* `mergeLine`, `newEntries` — what the lines of the new text mean, up to the first one that is
  malformed.

Principal result: `iniMerge_overrides`.
-/

namespace Kdm.Ini

open Ipc (Bytes CStr)
open Block

/-! ## The function -/

/-- `reStrN`; the string is kept if it is the same. -/
def reStrN (malloc : Nat → Bool) (dst : Option Bytes) (src : Bytes) : Option Bytes :=
  if dst = some src ∨ malloc (src.length + 1) then some src else none

def strNDup (malloc : Nat → Bool) (src : Bytes) : Option Bytes :=
  if malloc (src.length + 1) then some src else none

/-- Neither the end of the line nor the one of the text. -/
def inLine (c : UInt8) : Bool := c != 10 && c != 0

/-- `for (ce = p; ce != cb && (*(ce - 1) == ' ' || *(ce - 1) == '\t'); ce--);` -/
def trimmed (cb p : Bytes) : Bytes := (upto cb p).rdropWhile isBlank

/-- The loop is left, or the next round has another section, text and pointer. -/
inductive MergeStep (σ : Type) where
  | stop (data : σ)
  | next (sec : Option Bytes) (data : σ) (p : Bytes)

section Loop

variable {σ : Type} (malloc : Nat → Bool) (put : σ → Entry → Option σ)

/-- An entry is put into the text as soon as there was a header. -/
def putEntry (sec : Option Bytes) (data : σ) (key value : Bytes) : Option σ :=
  match sec with
  | some sec => put data ((sec, key), value)
  | none => some data

/-- The part of a round for a header; `q` is behind the bracket. -/
def mergeHeader (sec : Option Bytes) (data : σ) (q : Bytes) : Option (MergeStep σ) := do
  let p ← advance (fun c => inLine c && c != 93) q
  if p.head? = some 93 then
    match reStrN malloc sec (upto q p) with
    | some sec => return .next (some sec) data p.tail
    | none => return .stop data
  else return .stop data

/-- The part of a round for an entry; `cb` is at the key. -/
def mergeEntry (sec : Option Bytes) (data : σ) (cb : Bytes) : Option (MergeStep σ) := do
  let p ← advance (fun c => inLine c && c != 61) cb
  if p.head? = some 61 then
    match strNDup malloc (trimmed cb p) with
    | none => return .stop data
    | some key =>
      let cb ← advance isBlank p.tail
      let p ← advance inLine cb
      match strNDup malloc (trimmed cb p) with
      | none => return .stop data
      | some value =>
        let data ← putEntry put sec data key value
        return .next sec data p
  else return .stop data

/-- One round of the loop. -/
def mergeStep (sec : Option Bytes) (data : σ) (p : Bytes) : Option (MergeStep σ) := do
  match ← advance isBlank p with
  | [] => none
  | c :: q =>
    if c = 0 then return .stop data
    else if c = 10 then return .next sec data q
    else if c = 35 then
      let p ← advance inLine q
      if p.head? = some 10 then return .next sec data p.tail else return .stop data
    else if c = 91 then mergeHeader malloc sec data q
    else mergeEntry malloc put sec data (c :: q)

end Loop

section Progress

variable {σ : Type} {malloc : Nat → Bool} {put : σ → Entry → Option σ} {sec sec' : Option Bytes}
  {data data' : σ} {p q : Bytes}

theorem length_mergeHeader (h : mergeHeader malloc sec data p = some (.next sec' data' q)) :
    q.length ≤ p.length := by
  obtain ⟨p₁, hp, h⟩ := Option.bind_eq_some_iff.mp h
  have hlen := length_advance hp
  split at h
  · split at h
    · cases h
      rw [List.length_tail]
      omega
    · cases h
  · cases h

theorem length_mergeEntry (h : mergeEntry malloc put sec data p = some (.next sec' data' q)) :
    q.length < p.length := by
  obtain ⟨p₁, hp, h⟩ := Option.bind_eq_some_iff.mp h
  have hlen := length_advance hp
  split at h
  · rename_i hhead
    obtain ⟨t, rfl⟩ := List.head?_eq_some_iff.mp hhead
    rw [List.length_cons] at hlen
    split at h
    · cases h
    · obtain ⟨cb, hcb, h⟩ := Option.bind_eq_some_iff.mp h
      obtain ⟨p₂, hp₂, h⟩ := Option.bind_eq_some_iff.mp h
      have hlen₁ := length_advance hcb
      have hlen₂ := length_advance hp₂
      rw [List.tail_cons] at hlen₁
      split at h
      · cases h
      · obtain ⟨data₁, -, h⟩ := Option.bind_eq_some_iff.mp h
        cases h
        omega
  · cases h

/-- Every round gets on. -/
theorem length_mergeStep (h : mergeStep malloc put sec data p = some (.next sec' data' q)) :
    q.length < p.length := by
  obtain ⟨p₁, hp, h⟩ := Option.bind_eq_some_iff.mp h
  have hlen := length_advance hp
  cases p₁ with
  | nil => cases h
  | cons c r =>
    rw [List.length_cons] at hlen
    dsimp only at h
    split at h
    · cases h
    split at h
    · cases h
      omega
    split at h
    · obtain ⟨p₂, hp₂, h⟩ := Option.bind_eq_some_iff.mp h
      have hlen₂ := length_advance hp₂
      split at h
      · cases h
        rw [List.length_tail]
        omega
      · cases h
    split at h
    · have hlen₂ := length_mergeHeader h
      omega
    · have hlen₂ := length_mergeEntry h
      rw [List.length_cons] at hlen₂
      omega

end Progress

/-- `for (p = newdata;;)` -/
def mergeLoop {σ : Type} (malloc : Nat → Bool) (put : σ → Entry → Option σ) (sec : Option Bytes)
    (data : σ) (p : Bytes) : Option σ :=
  match _h : mergeStep malloc put sec data p with
  | none => none
  | some (.stop data) => some data
  | some (.next sec data q) => mergeLoop malloc put sec data q
  termination_by p.length
  decreasing_by exact length_mergeStep _h

/-- `data = iniEntry(data, section, key, value);` -/
def put (malloc : Nat → Bool) (data : Option Bytes) (e : Entry) : Option Bytes :=
  iniEntry malloc data e.1.1 e.1.2 (some e.2)

/-- `none` if the function reads behind the new text. -/
def iniMerge (malloc : Nat → Bool) (data newdata : Option Bytes) : Option (Option Bytes) :=
  match newdata with
  | none => some data
  | some p => mergeLoop malloc (fun data e => some (put malloc data e)) none data p

/-! ## What the new text means -/

/-- A line of the new text: the section after it and its entries; `none` if it is malformed.  What
follows a header is a line of its own. -/
def mergeLine (cur : Option Bytes) (l : Bytes) : Option (Option Bytes × List Entry) :=
  match _h : skipBlanks l with
  | [] => some (cur, [])
  | c :: q =>
    if c = 35 then some (cur, [])
    else if c = 91 then
      if 93 ∈ q then mergeLine (some (q.takeWhile (· ≠ 93))) (q.dropWhile (· ≠ 93)).tail else none
    else if 61 ∈ c :: q then
      some (cur, cur.toList.map fun sec =>
        ((sec, ((c :: q).takeWhile (· ≠ 61)).rdropWhile isBlank),
          trim ((c :: q).dropWhile (· ≠ 61)).tail))
    else none
  termination_by l.length
  decreasing_by
    have h1 := length_skipBlanks_cons _h
    have h2 := (List.dropWhile_suffix (l := q) (· ≠ 93)).length_le
    rw [List.length_tail]
    omega

/-- The entries of the lines before the first one that is malformed. -/
def mergeLines : Option Bytes → List Bytes → List Entry
  | _, [] => []
  | cur, l :: ls =>
    match mergeLine cur l with
    | none => []
    | some (cur, es) => es ++ mergeLines cur ls

/-- The entries of a new text, in order. -/
def newEntries (newdata : Bytes) : List Entry := mergeLines none (newdata.splitOn 10)

/-! ## One line of the loop -/

section Line

variable {σ : Type} {malloc : Nat → Bool} {put : σ → Entry → Option σ} {cur : Option Bytes} {data : σ}
  {l p q : Bytes} {c : UInt8}

theorem mergeLoop_eq (malloc : Nat → Bool) (put : σ → Entry → Option σ) (cur : Option Bytes)
    (data : σ) (p : Bytes) :
    mergeLoop malloc put cur data p =
      match mergeStep malloc put cur data p with
      | none => none
      | some (.stop data) => some data
      | some (.next sec data q) => mergeLoop malloc put sec data q := by
  rw [mergeLoop]
  split
  · rename_i h
    rw [h]
  · rename_i h
    rw [h]
  · rename_i h
    rw [h]

theorem mergeLoop_skipBlanks (l p : Bytes) :
    mergeLoop malloc put cur data (l ++ p) = mergeLoop malloc put cur data (skipBlanks l ++ p) := by
  obtain ⟨b, hb, hsplit⟩ := skipBlanks_split l
  have hstep : mergeStep malloc put cur data (l ++ p) =
      mergeStep malloc put cur data (skipBlanks l ++ p) := by
    unfold mergeStep
    nth_rewrite 1 [hsplit]
    rw [List.append_assoc, advance_append_left hb]
  rw [mergeLoop_eq, hstep, ← mergeLoop_eq]

theorem mergeStep_cons (hc : isBlank c = false) :
    mergeStep malloc put cur data (c :: q) =
      if c = 0 then some (.stop data)
      else if c = 10 then some (.next cur data q)
      else if c = 35 then do
        let p ← advance inLine q
        if p.head? = some 10 then return .next cur data p.tail else return .stop data
      else if c = 91 then mergeHeader malloc cur data q
      else mergeEntry malloc put cur data (c :: q) := by
  have hadv : advance isBlank (c :: q) = some (c :: q) := advance_append (a := []) (by simp) hc q
  unfold mergeStep
  rw [hadv]
  rfl

theorem mergeStep_entry (hin : inLine c = true) (hc : isBlank c = false) (h35 : c ≠ 35)
    (h91 : c ≠ 91) (p : Bytes) :
    mergeStep malloc put cur data (c :: q ++ p) = mergeEntry malloc put cur data (c :: q ++ p) := by
  have h0 : c ≠ 0 := by
    rintro rfl
    cases hin
  have h10 : c ≠ 10 := by
    rintro rfl
    cases hin
  rw [List.cons_append, mergeStep_cons hc, if_neg h0, if_neg h10, if_neg h35, if_neg h91]

theorem mergeLoop_end (p : Bytes) : mergeLoop malloc put cur data (0 :: p) = some data := by
  rw [mergeLoop_eq, mergeStep_cons rfl, if_pos rfl]

theorem mergeLoop_newline (p : Bytes) :
    mergeLoop malloc put cur data (10 :: p) = mergeLoop malloc put cur data p := by
  rw [mergeLoop_eq, mergeStep_cons rfl, if_neg (by decide), if_pos rfl]

/-- The pointer is at the end of a line, or of the text. -/
def AtEnd (p : Bytes) : Prop := ∃ c q, p = c :: q ∧ (c = 10 ∨ c = 0)

theorem putEntry_eq (put : σ → Entry → Option σ) (cur : Option Bytes) (data : σ)
    (key value : Bytes) :
    putEntry put cur data key value =
      (cur.toList.map fun sec => ((sec, key), value)).foldlM put data := by
  cases cur with
  | none => rfl
  | some sec =>
    show put data _ = (put data _).bind fun data => some data
    cases put data ((sec, key), value) <;> rfl

theorem not_inLine {d : UInt8} (hd : d = 10 ∨ d = 0) : inLine d = false := by
  rcases hd with rfl | rfl <;> rfl

theorem inLine_of_mem (hl : 10 ∉ l) (h0 : 0 ∉ l) : ∀ x ∈ l, inLine x = true := by
  intro x hx
  have h10 : x ≠ 10 := fun he => hl (he ▸ hx)
  have hz : x ≠ 0 := fun he => h0 (he ▸ hx)
  simp [inLine, h10, hz]

/-- A loop up to the end of the line or up to `d`. -/
theorem inLine_and_of_mem {d : UInt8} (hl : ∀ x ∈ l, inLine x = true) (hd : d ∉ l) :
    ∀ x ∈ l, (inLine x && x != d) = true := by
  intro x hx
  have hne : x ≠ d := fun he => hd (he ▸ hx)
  simp [hl x hx, hne]

theorem inLine_skipBlanks (hl : ∀ x ∈ l, inLine x = true) (h : skipBlanks l = c :: q) :
    inLine c = true ∧ ∀ x ∈ q, inLine x = true := by
  have hsub : ∀ x ∈ c :: q, inLine x = true := fun x hx =>
    hl x ((skipBlanks_suffix l).mem (h ▸ hx))
  exact List.forall_mem_cons.mp hsub

section Parts

variable (hmem : ∀ n, malloc n = true)

theorem mergeHeader_open (hq : ∀ x ∈ q, inLine x = true) (h : 93 ∉ q) (hp : AtEnd p) :
    mergeHeader malloc cur data (q ++ p) = some (.stop data) := by
  obtain ⟨d, p, rfl, hd⟩ := hp
  have hadv := advance_append (inLine_and_of_mem hq h) (by rw [not_inLine hd]; rfl) p
  unfold mergeHeader
  rw [hadv]
  rcases hd with rfl | rfl <;> rfl

theorem mergeEntry_open (hq : ∀ x ∈ q, inLine x = true) (h : 61 ∉ q) (hp : AtEnd p) :
    mergeEntry malloc put cur data (q ++ p) = some (.stop data) := by
  obtain ⟨d, p, rfl, hd⟩ := hp
  have hadv := advance_append (inLine_and_of_mem hq h) (by rw [not_inLine hd]; rfl) p
  unfold mergeEntry
  rw [hadv]
  rcases hd with rfl | rfl <;> rfl

include hmem

theorem mergeHeader_append (hq : ∀ x ∈ q, inLine x = true) (h : 93 ∉ q) (p : Bytes) :
    mergeHeader malloc cur data (q ++ 93 :: p) = some (.next (some q) data p) := by
  have hadv := advance_append (c := 93) (inLine_and_of_mem hq h) rfl p
  have hstr : reStrN malloc cur q = some q := if_pos (.inr (hmem _))
  unfold mergeHeader
  rw [hadv, Option.bind_eq_bind, Option.bind_some, if_pos (List.head?_cons), upto_append, hstr]
  rfl

theorem mergeEntry_append (hq : ∀ x ∈ q, inLine x = true) (h : 61 ∉ q)
    (hl : ∀ x ∈ l, inLine x = true) (hp : AtEnd p) :
    mergeEntry malloc put cur data (q ++ 61 :: (l ++ p)) =
      (putEntry put cur data (q.rdropWhile isBlank) (trim l)).bind fun data =>
        some (.next cur data p) := by
  obtain ⟨d, p, rfl, hd⟩ := hp
  have hadv := advance_append (c := 61) (inLine_and_of_mem hq h) rfl (l ++ d :: p)
  have hblank : isBlank d = false := by rcases hd with rfl | rfl <;> rfl
  have hcb := advance_dropWhile hblank l p
  have hval : ∀ x ∈ skipBlanks l, inLine x = true := fun x hx => hl x ((skipBlanks_suffix l).mem hx)
  have hend := advance_append hval (not_inLine hd) p
  have hdup (src : Bytes) : strNDup malloc src = some src := if_pos (hmem _)
  unfold mergeEntry
  rw [hadv, Option.bind_eq_bind, Option.bind_some, if_pos (List.head?_cons), hdup, List.tail_cons]
  dsimp only
  rw [hcb, Option.bind_some]
  show Option.bind (advance inLine (skipBlanks l ++ d :: p)) _ = _
  rw [hend, Option.bind_some, hdup]
  unfold trimmed
  rw [upto_append, upto_append]
  rfl

end Parts

/-- **One line of the new text**: it is malformed and the loop is left, or its entries are put into
the text, and the loop is at the end of the line. -/
theorem mergeLoop_line (put : σ → Entry → Option σ) (hmem : ∀ n, malloc n = true) (hl : ∀ x ∈ l, inLine x = true)
    (hp : AtEnd p) (cur : Option Bytes) (data : σ) :
    mergeLoop malloc put cur data (l ++ p) =
      match mergeLine cur l with
      | none => some data
      | some (cur, es) => (es.foldlM put data).bind fun data => mergeLoop malloc put cur data p := by
  fun_induction mergeLine cur l with
  | case1 cur l hs =>
    rw [mergeLoop_skipBlanks, hs]
    rfl
  | case2 cur l q hs =>
    obtain ⟨hc, hq⟩ := inLine_skipBlanks hl hs
    obtain ⟨d, p, rfl, hd⟩ := hp
    rw [mergeLoop_skipBlanks, hs, List.cons_append, mergeLoop_eq, mergeStep_cons rfl,
      if_neg (by decide), if_neg (by decide), if_pos rfl,
      advance_append hq (not_inLine hd), Option.bind_eq_bind, Option.bind_some]
    rcases hd with rfl | rfl
    · exact (mergeLoop_newline p).symm
    · exact (mergeLoop_end p).symm
  | case3 cur l q h93 hs _ ih =>
    obtain ⟨hc, hq⟩ := inLine_skipBlanks hl hs
    obtain ⟨r, hr, -⟩ := Lines.takeWhile_append h93
    have hdrop := Lines.dropWhile_append_cons (Lines.not_mem_takeWhile 93 q) r
    rw [← hr] at hdrop
    rw [hdrop, List.tail_cons] at ih ⊢
    have hname : ∀ x ∈ q.takeWhile (· ≠ 93), inLine x = true := fun x hx =>
      hq x ((List.takeWhile_prefix _).mem hx)
    have hrest : ∀ x ∈ r, inLine x = true := fun x hx => hq x (by rw [hr]; simp [hx])
    rw [mergeLoop_skipBlanks, hs, List.cons_append, mergeLoop_eq, mergeStep_cons rfl,
      if_neg (by decide), if_neg (by decide), if_neg (by decide), if_pos rfl]
    nth_rewrite 1 [hr]
    rw [List.append_assoc, List.cons_append,
      mergeHeader_append hmem hname (Lines.not_mem_takeWhile 93 q)]
    exact ih hrest
  | case4 cur l q h93 hs =>
    obtain ⟨hc, hq⟩ := inLine_skipBlanks hl hs
    rw [mergeLoop_skipBlanks, hs, List.cons_append, mergeLoop_eq, mergeStep_cons rfl,
      if_neg (by decide), if_neg (by decide), if_neg (by decide), if_pos rfl,
      mergeHeader_open hq h93 hp]
  | case5 cur l c q hs h35 h91 h61 =>
    have hcq := inLine_skipBlanks hl hs
    have hall : ∀ x ∈ c :: q, inLine x = true := List.forall_mem_cons.mpr hcq
    obtain ⟨r, hr, -⟩ := Lines.takeWhile_append h61
    have hdrop := Lines.dropWhile_append_cons (Lines.not_mem_takeWhile 61 (c :: q)) r
    rw [← hr] at hdrop
    have hkey : ∀ x ∈ (c :: q).takeWhile (· ≠ 61), inLine x = true := fun x hx =>
      hall x ((List.takeWhile_prefix _).mem hx)
    have hrest : ∀ x ∈ r, inLine x = true := fun x hx => hall x (by rw [hr]; simp [hx])
    rw [mergeLoop_skipBlanks, hs, mergeLoop_eq, mergeStep_entry hcq.1 (first_skipBlanks hs) h35 h91,
      hdrop, List.tail_cons]
    nth_rewrite 1 [hr]
    rw [List.append_assoc, List.cons_append,
      mergeEntry_append hmem hkey (Lines.not_mem_takeWhile 61 _) hrest hp, putEntry_eq]
    dsimp only
    cases (cur.toList.map _).foldlM put data <;> rfl
  | case6 cur l c q hs h35 h91 h61 =>
    have hcq := inLine_skipBlanks hl hs
    have hall : ∀ x ∈ c :: q, inLine x = true := List.forall_mem_cons.mpr hcq
    rw [mergeLoop_skipBlanks, hs, mergeLoop_eq, mergeStep_entry hcq.1 (first_skipBlanks hs) h35 h91,
      mergeEntry_open hall h61 hp]

/-- **The loop over the lines** puts in the entries of the lines before the first malformed one. -/
theorem mergeLoop_lines (put : σ → Entry → Option σ) (hmem : ∀ n, malloc n = true) {ls : List Bytes} (hne : ls ≠ [])
    (hls : ∀ l ∈ ls, ∀ x ∈ l, inLine x = true) (cur : Option Bytes) (data : σ) :
    mergeLoop malloc put cur data ([10].intercalate ls ++ [0]) =
      (mergeLines cur ls).foldlM put data := by
  induction ls generalizing cur data with
  | nil => exact (hne rfl).elim
  | cons l ls ih =>
    obtain ⟨hl, hls⟩ := List.forall_mem_cons.mp hls
    cases ls with
    | nil =>
      have hline := mergeLoop_line put hmem hl ⟨0, [], rfl, .inr rfl⟩ cur data
      rw [List.intercalate_singleton, hline]
      unfold mergeLines
      cases mergeLine cur l with
      | none => rfl
      | some r =>
        show (r.2.foldlM put data).bind _ = List.foldlM put data (r.2 ++ [])
        rw [List.append_nil]
        cases r.2.foldlM put data with
        | none => rfl
        | some data => exact mergeLoop_end []
    | cons l' ls =>
      have hend : AtEnd (10 :: ([10].intercalate (l' :: ls) ++ [0])) := ⟨10, _, rfl, .inl rfl⟩
      have hline := mergeLoop_line put hmem hl hend cur data
      rw [List.intercalate_cons_cons, List.append_assoc, List.append_assoc]
      refine hline.trans ?_
      rw [mergeLines]
      cases mergeLine cur l with
      | none => rfl
      | some r =>
        show (r.2.foldlM put data).bind _ = List.foldlM put data (r.2 ++ _)
        rw [List.foldlM_append]
        cases r.2.foldlM put data with
        | none => rfl
        | some data =>
          show mergeLoop _ _ _ _ (10 :: _) = _
          rw [mergeLoop_newline, ih (List.cons_ne_nil l' ls) hls]
          rfl

end Line

/-! ## Nothing behind the new text is read -/

section Bounded

variable {σ : Type} {malloc : Nat → Bool} {put : σ → Entry → Option σ} {I : σ → Prop}
  {cur : Option Bytes} {data : σ} {p : Bytes}

/-- What is put into the text is from within lines. -/
structure Within (e : Entry) : Prop where
  sec : ∀ x ∈ e.1.1, inLine x = true
  key : ∀ x ∈ e.1.2, inLine x = true
  value : ∀ x ∈ e.2, inLine x = true

/-- The text is as it should be, and the pointer of the next round is not behind the zero. -/
def MergeStep.Bounded (I : σ → Prop) : MergeStep σ → Prop
  | .stop data => I data
  | .next sec data p => (∀ s ∈ sec, ∀ x ∈ s, inLine x = true) ∧ I data ∧ 0 ∈ p

theorem mem_tail_of_head {c d : UInt8} {q : Bytes} (h : d ∈ c :: q) (hc : c ≠ d) : d ∈ q :=
  (List.mem_cons.mp h).resolve_left hc.symm

theorem inLine_of_and {a : Bytes} {d : UInt8} (ha : ∀ x ∈ a, (inLine x && x != d) = true) :
    ∀ x ∈ a, inLine x = true :=
  fun x hx => (Bool.and_eq_true_iff.mp (ha x hx)).1

theorem reStrN_some {dst : Option Bytes} {src s : Bytes} (h : reStrN malloc dst src = some s) :
    s = src := by
  unfold reStrN at h
  split at h
  · exact (Option.some.inj h).symm
  · cases h

theorem strNDup_some {src s : Bytes} (h : strNDup malloc src = some s) : s = src := by
  unfold strNDup at h
  split at h
  · exact (Option.some.inj h).symm
  · cases h

variable (hsec : ∀ s ∈ cur, ∀ x ∈ s, inLine x = true) (hI : I data)

section

include hI

theorem mergeHeader_bounded (h : 0 ∈ p) :
    ∃ r, mergeHeader malloc cur data p = some r ∧ r.Bounded I := by
  obtain ⟨a, c, q, rfl, ha, hadv, hq⟩ := advance_of_mem (f := fun c => inLine c && c != 93) h rfl
  unfold mergeHeader
  rw [hadv, Option.bind_eq_bind, Option.bind_some]
  split
  · rename_i hc
    cases hc
    rw [upto_append]
    cases hs : reStrN malloc cur a with
    | none => exact ⟨_, rfl, hI⟩
    | some sec =>
      refine ⟨_, rfl, ?_, hI, mem_tail_of_head hq (by decide)⟩
      rintro s ⟨⟩
      rw [reStrN_some hs]
      exact inLine_of_and ha
  · exact ⟨_, rfl, hI⟩

end

variable (hput : ∀ data e, I data → Within e → ∃ data', put data e = some data' ∧ I data')

include hsec hI hput

theorem mergeEntry_bounded (h : 0 ∈ p) :
    ∃ r, mergeEntry malloc put cur data p = some r ∧ r.Bounded I := by
  obtain ⟨a, c, q, rfl, ha, hadv, hq⟩ := advance_of_mem (f := fun c => inLine c && c != 61) h rfl
  unfold mergeEntry
  rw [hadv, Option.bind_eq_bind, Option.bind_some]
  split
  · rename_i hc
    cases hc
    unfold trimmed
    rw [upto_append]
    cases hk : strNDup malloc (a.rdropWhile isBlank) with
    | none => exact ⟨_, rfl, hI⟩
    | some key =>
      obtain ⟨b, d, cb, rfl, -, hcb, hmem⟩ :=
        advance_of_mem (f := isBlank) (mem_tail_of_head hq (by decide)) rfl
      obtain ⟨v, e, p', hv, hval, hp', hend⟩ := advance_of_mem (f := inLine) hmem rfl
      dsimp only [List.tail_cons]
      rw [hcb, Option.bind_some]
      show ∃ r, Option.bind (advance inLine (d :: cb)) _ = some r ∧ _
      rw [hp', Option.bind_some, hv, upto_append]
      cases hs : strNDup malloc (v.rdropWhile isBlank) with
      | none => exact ⟨_, rfl, hI⟩
      | some value =>
        cases cur with
        | none => exact ⟨_, rfl, hsec, hI, hend⟩
        | some sec =>
          have hwithin : Within ((sec, key), value) := by
            refine ⟨hsec sec rfl, ?_, ?_⟩
            · intro x hx
              rw [strNDup_some hk] at hx
              exact inLine_of_and ha x ((List.rdropWhile_prefix isBlank _).mem hx)
            · intro x hx
              rw [strNDup_some hs] at hx
              exact hval x ((List.rdropWhile_prefix isBlank _).mem hx)
          obtain ⟨data', hdata, hI'⟩ := hput data _ hI hwithin
          refine ⟨.next (some sec) data' (e :: p'), ?_, hsec, hI', hend⟩
          show Option.bind (put data ((sec, key), value)) _ = _
          rw [hdata]
          rfl
  · exact ⟨_, rfl, hI⟩

theorem mergeStep_bounded (malloc : Nat → Bool) (h : 0 ∈ p) :
    ∃ r, mergeStep malloc put cur data p = some r ∧ r.Bounded I := by
  obtain ⟨a, c, q, rfl, -, hadv, hq⟩ := advance_of_mem (f := isBlank) h rfl
  unfold mergeStep
  rw [hadv, Option.bind_eq_bind, Option.bind_some]
  dsimp only
  split
  · exact ⟨_, rfl, hI⟩
  rename_i h0
  have hmem := mem_tail_of_head hq h0
  split
  · exact ⟨_, rfl, hsec, hI, hmem⟩
  split
  · obtain ⟨b, d, p', rfl, -, hp', hend⟩ := advance_of_mem (f := inLine) hmem rfl
    rw [hp', Option.bind_some]
    split
    · rename_i hd
      cases hd
      exact ⟨_, rfl, hsec, hI, mem_tail_of_head hend (by decide)⟩
    · exact ⟨_, rfl, hI⟩
  split
  · exact mergeHeader_bounded hI hmem
  · exact mergeEntry_bounded hsec hI hput hq

/-- **The loop stays in the new text**, whether memory runs out or not, and the text stays as it
should be. -/
theorem mergeLoop_bounded (malloc : Nat → Bool) (h : 0 ∈ p) :
    ∃ result, mergeLoop malloc put cur data p = some result ∧ I result := by
  induction hn : p.length using Nat.strong_induction_on generalizing cur data p with
  | h n ih =>
    obtain ⟨r, hr, hb⟩ := mergeStep_bounded hsec hI hput malloc h
    rw [mergeLoop_eq, hr]
    cases r with
    | stop data => exact ⟨data, rfl, hb⟩
    | next sec data q => exact ih q.length (hn ▸ length_mergeStep hr) hb.1 hb.2.1 hb.2.2 rfl

end Bounded

/-! ## The entries of the new text -/

/-- An entry that `iniEntry` takes as it is. -/
structure Clean (e : Entry) : Prop where
  sec : SectionName e.1.1
  key : EntryKey e.1.2
  newline : 10 ∉ e.2
  trimmed : trim e.2 = e.2

section Clean

variable {cur cur' : Option Bytes} {l p q : Bytes} {c : UInt8} {es : List Entry}

theorem first_rdropWhile (h : ∀ x ∈ p.head?, isBlank x = false) :
    ∀ x ∈ (p.rdropWhile isBlank).head?, isBlank x = false := by
  intro x hx
  obtain ⟨r, hr⟩ := List.head?_eq_some_iff.mp hx
  obtain ⟨s, hs⟩ := List.rdropWhile_prefix isBlank (l := p)
  exact h x (by rw [← hs, hr]; rfl)

theorem first_of_skipBlanks (p : Bytes) : ∀ x ∈ (skipBlanks p).head?, isBlank x = false := by
  intro x hx
  obtain ⟨q, hq⟩ := List.head?_eq_some_iff.mp hx
  exact first_skipBlanks hq

theorem trim_trim (p : Bytes) : trim (trim p) = trim p := by
  unfold trim
  rw [skipBlanks_of_first (first_rdropWhile (first_of_skipBlanks p))]
  exact List.rdropWhile_idempotent isBlank (skipBlanks p)

theorem not_newline_of_inLine (hl : ∀ x ∈ l, inLine x = true) : 10 ∉ l :=
  fun h => absurd (hl 10 h) (by decide)

theorem entryKey_of_line (hl : ∀ x ∈ c :: q, inLine x = true) (hc : isBlank c = false)
    (h91 : c ≠ 91) : EntryKey (((c :: q).takeWhile (· ≠ 61)).rdropWhile isBlank) := by
  have hpre : ((c :: q).takeWhile (· ≠ 61)).rdropWhile isBlank <+: (c :: q).takeWhile (· ≠ 61) :=
    List.rdropWhile_prefix isBlank _
  have hhead : ∀ x ∈ (((c :: q).takeWhile (· ≠ 61)).rdropWhile isBlank).head?, x = c := by
    intro x hx
    obtain ⟨r, hr⟩ := List.head?_eq_some_iff.mp hx
    obtain ⟨s, hs⟩ := hpre.trans (List.takeWhile_prefix _)
    rw [hr] at hs
    exact (List.cons.inj hs).1
  refine ⟨⟨?_, ?_, ?_⟩, ?_, ?_⟩
  · exact fun h => not_newline_of_inLine hl ((hpre.trans (List.takeWhile_prefix _)).mem h)
  · exact fun h => Lines.not_mem_takeWhile 61 (c :: q) (hpre.mem h)
  · intro x hx
    obtain ⟨hne, rfl⟩ := List.mem_getLast?_eq_getLast hx
    simpa using List.rdropWhile_last_not isBlank _ hne
  · intro h
    exact h91 (hhead 91 h).symm
  · intro x hx
    rw [hhead x hx]
    exact hc

/-- **What the new text has is clean.** -/
theorem mergeLine_clean (hl : ∀ x ∈ l, inLine x = true) (hcur : ∀ sec ∈ cur, SectionName sec)
    (h : mergeLine cur l = some (cur', es)) :
    (∀ sec ∈ cur', SectionName sec) ∧ ∀ e ∈ es, Clean e := by
  fun_induction mergeLine cur l with
  | case1 cur l hs =>
    cases h
    exact ⟨hcur, by simp⟩
  | case2 cur l q hs =>
    cases h
    exact ⟨hcur, by simp⟩
  | case3 cur l q h93 hs _ ih =>
    obtain ⟨-, hq⟩ := inLine_skipBlanks hl hs
    refine ih (fun x hx => hq x ((List.dropWhile_suffix _).mem (List.mem_of_mem_tail hx))) ?_ h
    rintro sec ⟨⟩
    exact ⟨fun hm => not_newline_of_inLine hq ((List.takeWhile_prefix _).mem hm),
      Lines.not_mem_takeWhile 93 q⟩
  | case4 => cases h
  | case5 cur l c q hs h35 h91 h61 =>
    cases h
    refine ⟨hcur, ?_⟩
    intro e he
    obtain ⟨sec, hsec, rfl⟩ := List.mem_map.mp he
    have hall : ∀ x ∈ c :: q, inLine x = true := List.forall_mem_cons.mpr (inLine_skipBlanks hl hs)
    refine ⟨hcur sec (Option.mem_toList.mp hsec), entryKey_of_line hall (first_skipBlanks hs) h91, ?_,
      trim_trim _⟩
    intro hm
    have hmem := (skipBlanks_suffix _).mem ((List.rdropWhile_prefix isBlank _).mem hm)
    exact not_newline_of_inLine hall ((List.dropWhile_suffix _).mem (List.mem_of_mem_tail hmem))
  | case6 => cases h

theorem mergeLines_clean {ls : List Bytes} (hls : ∀ l ∈ ls, ∀ x ∈ l, inLine x = true)
    (hcur : ∀ sec ∈ cur, SectionName sec) : ∀ e ∈ mergeLines cur ls, Clean e := by
  induction ls generalizing cur with
  | nil =>
    intro e he
    cases he
  | cons l ls ih =>
    obtain ⟨hl, hls⟩ := List.forall_mem_cons.mp hls
    rw [mergeLines]
    cases h : mergeLine cur l with
    | none =>
      intro e he
      cases he
    | some r =>
      obtain ⟨hcur', hes⟩ := mergeLine_clean hl hcur h
      intro e he
      rcases List.mem_append.mp he with he | he
      · exact hes e he
      · exact ih hls hcur' e he

end Clean

/-! ## The override -/

variable {malloc : Nat → Bool} {data : Option Bytes} {es news : List Entry}

/-- The last entry that is put under a key counts, and the text as it was if there is none. -/
theorem foldl_put (hmem : ∀ n, malloc n = true) (hnews : ∀ e ∈ news, Clean e)
    (hterm : Terminated data) (h : Denotes data es) :
    ∃ es', Terminated (news.foldl (put malloc) data) ∧ Denotes (news.foldl (put malloc) data) es' ∧
      ∀ k, es'.lookup k = (news.reverse.lookup k).or (es.lookup k) := by
  induction news generalizing data es with
  | nil => exact ⟨es, hterm, h, fun k => rfl⟩
  | cons e news ih =>
    obtain ⟨he, hnews⟩ := List.forall_mem_cons.mp hnews
    obtain ⟨s, es₁, hs, hterm₁, -, hes₁, hput⟩ := store_entries hmem he.sec he.key he.newline h
    rw [he.trimmed] at hput
    obtain ⟨es', hterm', hes', hlook⟩ := ih hnews hterm₁ hes₁
    rw [List.foldl_cons, show put malloc data e = some s from hs]
    refine ⟨es', hterm', hes', fun k => ?_⟩
    rw [hlook, List.reverse_cons, List.lookup_append, Option.or_assoc]
    congr 1
    by_cases hk : k = e.1
    · rw [hk, hput.lookup_self, List.lookup_cons_self, Option.some_or]
    · rw [hput.lookup_other hk, List.lookup_cons, beq_eq_false_iff_ne.mpr hk]
      rfl

/-- **Merging overrides**: nothing behind the new text is read; if memory does not run out, the
result ends in a newline again, and an entry in it has the last value that the new text gives it
before its first malformed line, and the value it had if there is none. -/
theorem iniMerge_overrides (malloc : Nat → Bool) (hterm : Terminated data) (newdata : CStr) :
    ∃ result, iniMerge malloc data (some (newdata.1 ++ [0])) = some result ∧
      ((∀ n, malloc n = true) → Terminated result ∧
        ∀ sec key, SectionName sec → LookupKey key →
          iniEntry malloc result sec key none =
            ((newEntries newdata.1).reverse.lookup (sec, key)).or
              (iniEntry malloc data sec key none)) := by
  obtain ⟨result, hresult, -⟩ : ∃ result,
      mergeLoop malloc (fun data e => some (put malloc data e)) none data (newdata.1 ++ [0]) =
        some result ∧ True :=
    mergeLoop_bounded (I := fun _ => True) (by simp) trivial
      (fun _ _ _ _ => ⟨_, rfl, trivial⟩) malloc (by simp)
  refine ⟨result, hresult, fun hmem => ?_⟩
  have hls : ∀ l ∈ newdata.1.splitOn 10, ∀ x ∈ l, inLine x = true := fun l hl =>
    inLine_of_mem (Lines.not_mem_of_mem_splitOn hl) fun h0 =>
      newdata.2 (Lines.mem_of_mem_splitOn hl h0)
  have hloop := mergeLoop_lines (fun data e => some (put malloc data e)) hmem
    (List.splitOn_ne_nil 10 newdata.1) hls none data
  rw [List.intercalate_splitOn, hresult] at hloop
  cases hloop.trans List.foldlM_pure
  obtain ⟨es, hes⟩ := hterm.denotes
  have hclean : ∀ e ∈ mergeLines none (newdata.1.splitOn 10), Clean e :=
    mergeLines_clean hls (by simp)
  obtain ⟨es', hterm', hes', hlook⟩ := foldl_put hmem hclean hterm hes
  refine ⟨hterm', fun sec key hsec hkey => ?_⟩
  rw [lookup_entries hmem hsec hkey hes', lookup_entries hmem hsec hkey hes, hlook]
  rfl

/-- `[S]` `a=c`, without a newline at its end, is merged into `[S]` `a=b`. -/
theorem iniMerge_overrides_once : ∃ result,
    iniMerge (fun _ => true) (some [91, 83, 93, 10, 97, 61, 98, 10])
      (some [91, 83, 93, 10, 97, 61, 99, 0]) = some result ∧
    iniEntry (fun _ => true) result [83] [97] none = some [99] := by
  have hterm : Terminated (some [91, 83, 93, 10, 97, 61, 98, 10]) := by rintro s ⟨⟩; rfl
  have hsec : SectionName [83] := ⟨by decide, by decide⟩
  have hkey : LookupKey [97] := ⟨by decide, by decide, by rintro x ⟨⟩; rfl⟩
  obtain ⟨result, hresult, hlook⟩ := iniMerge_overrides (fun _ => true) hterm
    ⟨[91, 83, 93, 10, 97, 61, 99], by decide⟩
  have hnew : newEntries [91, 83, 93, 10, 97, 61, 99] = [(([83], [97]), [99])] := by
    decide +kernel
  refine ⟨result, hresult, ?_⟩
  rw [(hlook fun _ => rfl).2 [83] [97] hsec hkey, hnew]
  rfl

/-- A lookup may name more than a line can have: with a blank at the end of the key it finds the
entry that `a=c` has changed. -/
theorem not_iniMerge_overrides : ¬ ∀ (malloc : Nat → Bool) (data result : Option Bytes)
    (newdata : CStr), (∀ n, malloc n = true) → Terminated data →
      iniMerge malloc data (some (newdata.1 ++ [0])) = some result →
      ∀ sec key, iniEntry malloc result sec key none =
        ((newEntries newdata.1).reverse.lookup (sec, key)).or
          (iniEntry malloc data sec key none) := by
  intro h
  have hterm : Terminated (some [91, 83, 93, 10, 97, 32, 61, 98, 10]) := by rintro s ⟨⟩; rfl
  have hmerge : iniMerge (fun _ => true) (some [91, 83, 93, 10, 97, 32, 61, 98, 10])
      (some [91, 83, 93, 10, 97, 61, 99, 0]) =
        some (some [91, 83, 93, 10, 97, 32, 61, 99, 10]) := by
    decide +kernel
  have hlaw := h (fun _ => true) _ _ ⟨[91, 83, 93, 10, 97, 61, 99], by decide⟩ (fun _ => rfl) hterm
    hmerge [83] [97, 32]
  exact absurd hlaw (by decide +kernel)

end Kdm.Ini
