import Kdm.Ini.Entry
import Kdm.Lib.Lines

/-!
# The text of an ini file as a store

* `entries` — what the lines of the text mean: a list of values under section and key, in order.
* `lookup_entries` — `iniEntry` without a value returns the first of them under the key.
* `store_entries` — `iniEntry` with a value replaces that one, or puts a new one into the list.

Principal result: `iniEntry_stores`.
-/

namespace Kdm.Ini

open Ipc (Bytes)

variable {sec key value l q rest t p : Bytes} {c : Cursor} {cur : Option Bytes}
  {ls done : List Bytes}

/-! ## The kinds of lines -/

inductive LineKind where
  | blank
  /-- `none` when the bracket is not closed -/
  | header (name : Option Bytes)
  | entry (key value : Bytes)
  | other
  deriving DecidableEq, Repr

def lineKind (l : Bytes) : LineKind :=
  match skipBlanks l with
  | [] => .blank
  | x :: q =>
    if x = 91 then .header (if 93 ∈ q then some (q.takeWhile (· ≠ 93)) else none)
    else if 61 ∈ x :: q then
      .entry (((x :: q).takeWhile (· ≠ 61)).rdropWhile isBlank)
        (skipBlanks ((x :: q).dropWhile (· ≠ 61)).tail)
    else .other

/-- The text of the lines. -/
abbrev text (ls : List Bytes) : Bytes := Lines.join 10 ls

theorem text_cons (l : Bytes) (ls : List Bytes) : text (l :: ls) = l ++ 10 :: text ls :=
  Lines.join_cons l ls

/-- The name of a section. -/
structure SectionName (sec : Bytes) : Prop where
  newline : 10 ∉ sec
  bracket : 93 ∉ sec

/-- The name of a key. -/
structure KeyName (key : Bytes) : Prop where
  newline : 10 ∉ key
  equals : 61 ∉ key
  bracket : key.head? ≠ some 91
  ne_nil : key ≠ []
  first : ∀ x ∈ key.head?, isBlank x = false
  last : ∀ x ∈ key.getLast?, isBlank x = false

/-- A key that can be looked up: its end is told from what follows on a line. -/
structure LookupKey (key : Bytes) : Prop where
  newline : 10 ∉ key
  equals : 61 ∉ key
  last : ∀ x ∈ key.getLast?, isBlank x = false

/-- A key that a line can have.  It may be empty. -/
structure EntryKey (key : Bytes) : Prop extends LookupKey key where
  bracket : key.head? ≠ some 91
  first : ∀ x ∈ key.head?, isBlank x = false

theorem KeyName.entryKey (hk : KeyName key) : EntryKey key where
  newline := hk.newline
  equals := hk.equals
  last := hk.last
  bracket := hk.bracket
  first := hk.first

/-! ## The cursor on a line -/

theorem skipBlanks_append (l rest : Bytes) :
    skipBlanks (l ++ 10 :: rest) = skipBlanks l ++ 10 :: rest := by
  unfold skipBlanks
  rw [List.dropWhile_append]
  split
  · rename_i h
    rw [List.isEmpty_iff.mp h]
    rfl
  · rfl

theorem nextLine_append (h : 10 ∉ l) (rest : Bytes) : nextLine (l ++ 10 :: rest) = rest := by
  rw [nextLine, Lines.dropWhile_append_cons h]
  rfl

theorem matchText_append (h : 10 ∉ t) (q rest : Bytes) :
    matchText (q ++ 10 :: rest) t = ((matchText q t).1 ++ 10 :: rest, (matchText q t).2) := by
  fun_induction matchText q t with
  | case1 p a t ih =>
    rw [List.cons_append, matchText, if_pos rfl]
    exact ih fun hm => h (List.mem_cons_of_mem _ hm)
  | case2 a p b t hab => rw [List.cons_append, matchText, if_neg hab]
  | case3 p t hpt =>
    cases t with
    | nil => cases p <;> rfl
    | cons b t =>
      cases p with
      | nil =>
        have hb : (10 : UInt8) ≠ b := fun he => h (he ▸ List.mem_cons_self)
        rw [List.nil_append, matchText, if_neg hb]
      | cons a p => exact (hpt a p b t rfl rfl).elim

theorem matchText_suffix (q t : Bytes) : (matchText q t).1 <:+ q := by
  fun_induction matchText q t with
  | case1 p a t ih => exact ih.trans (List.suffix_cons a p)
  | case2 => exact List.suffix_refl _
  | case3 => exact List.suffix_refl _

theorem matchText_self (t s : Bytes) : matchText (t ++ s) t = (s, []) := by
  induction t with
  | nil => cases s <;> rfl
  | cons a t ih => rw [List.cons_append, matchText, if_pos rfl, ih]

/-- The text was matched to its end. -/
theorem eq_append_of_matchText (h : (matchText q t).2 = []) : q = t ++ (matchText q t).1 := by
  fun_induction matchText q t with
  | case1 p a t ih => rw [List.cons_append, ← ih h]
  | case2 => cases h
  | case3 p t hpt => rw [show t = [] from h]; rfl

theorem matchText_header (hs : 93 ∉ sec) (q : Bytes) :
    ((matchText q sec).2 = [] ∧ (matchText q sec).1.head? = some 93) ↔
      (if 93 ∈ q then some (q.takeWhile (· ≠ 93)) else none) = some sec := by
  have hiff : ((if 93 ∈ q then some (q.takeWhile (· ≠ 93)) else none) = some sec) ↔
      93 ∈ q ∧ q.takeWhile (· ≠ 93) = sec := by
    split <;> simp [*]
  rw [hiff, Lines.takeWhile_eq_iff]
  constructor
  · rintro ⟨h, hhead⟩
    obtain ⟨s, hs'⟩ := List.head?_eq_some_iff.mp hhead
    exact ⟨hs, s, hs' ▸ eq_append_of_matchText h⟩
  · rintro ⟨-, s, rfl⟩
    rw [matchText_self]
    exact ⟨rfl, rfl⟩

theorem skipBlanks_split (p : Bytes) :
    ∃ b, (∀ x ∈ b, isBlank x = true) ∧ p = b ++ skipBlanks p :=
  ⟨p.takeWhile isBlank, fun _ => List.mem_takeWhile_imp, List.takeWhile_append_dropWhile.symm⟩

theorem first_skipBlanks {x : UInt8} (h : skipBlanks p = x :: q) : isBlank x = false := by
  have hp : p.dropWhile isBlank = x :: q := h
  have hx := List.head_dropWhile_not isBlank (by rw [hp]; exact List.cons_ne_nil x q)
  simpa only [hp, List.head_cons] using hx

theorem skipBlanks_append_blank {b : Bytes} (hb : ∀ x ∈ b, isBlank x = true) (p : Bytes) :
    skipBlanks (b ++ p) = skipBlanks p :=
  List.dropWhile_append_of_pos hb

theorem skipBlanks_of_first (h : ∀ x ∈ p.head?, isBlank x = false) : skipBlanks p = p := by
  cases p with
  | nil => rfl
  | cons x p => exact List.dropWhile_cons_of_neg (by rw [h x rfl]; exact Bool.false_ne_true)

theorem rdropWhile_append_blank {b : Bytes} (hb : ∀ x ∈ b, isBlank x = true) (k : Bytes) :
    (k ++ b).rdropWhile isBlank = k.rdropWhile isBlank := by
  unfold List.rdropWhile
  rw [List.reverse_append, List.dropWhile_append_of_pos fun x hx => hb x (List.mem_reverse.mp hx)]

namespace LookupKey

variable (hk : LookupKey key)
include hk

theorem rdropWhile : key.rdropWhile isBlank = key := by
  rw [List.rdropWhile_eq_self_iff]
  intro hne
  rw [hk.last _ (List.getLast?_eq_some_getLast hne)]
  exact Bool.false_ne_true

/-- A line with the key, and blanks before the sign. -/
theorem line {b : Bytes} (hb : ∀ x ∈ b, isBlank x = true) (s : Bytes) :
    61 ∈ key ++ b ++ 61 :: s ∧
      ((key ++ b ++ 61 :: s).takeWhile (· ≠ 61)).rdropWhile isBlank = key ∧
      (key ++ b ++ 61 :: s).dropWhile (· ≠ 61) = 61 :: s := by
  have hmem : 61 ∉ key ++ b := by
    intro hm
    rcases List.mem_append.mp hm with hm | hm
    · exact hk.equals hm
    · exact absurd (hb 61 hm) (by decide)
  obtain ⟨h61, htake⟩ := Lines.takeWhile_eq_iff.mpr ⟨hmem, s, rfl⟩
  exact ⟨h61, by rw [htake, rdropWhile_append_blank hb, hk.rdropWhile],
    Lines.dropWhile_append_cons hmem s⟩

theorem matchText (q : Bytes) :
    ((matchText q key).2 = [] ∧ (skipBlanks (matchText q key).1).head? = some 61) ↔
      61 ∈ q ∧ (q.takeWhile (· ≠ 61)).rdropWhile isBlank = key := by
  constructor
  · rintro ⟨h, hhead⟩
    obtain ⟨s, hs⟩ := List.head?_eq_some_iff.mp hhead
    obtain ⟨b, hb, hsplit⟩ := skipBlanks_split (Ini.matchText q key).1
    have hq : q = key ++ b ++ 61 :: s := by
      rw [List.append_assoc, ← hs, ← hsplit]
      exact eq_append_of_matchText h
    obtain ⟨h61, htake, -⟩ := hk.line hb s
    rw [← hq] at h61 htake
    exact ⟨h61, htake⟩
  · rintro ⟨h61, htake⟩
    obtain ⟨s, hs, -⟩ := Lines.takeWhile_append h61
    have hb : ∀ x ∈ (q.takeWhile (· ≠ 61)).rtakeWhile isBlank, isBlank x = true :=
      fun x => List.mem_rtakeWhile_imp
    have hq : q = key ++ ((q.takeWhile (· ≠ 61)).rtakeWhile isBlank ++ 61 :: s) := by
      have hsplit : (q.takeWhile (· ≠ 61)).rdropWhile isBlank ++
          (q.takeWhile (· ≠ 61)).rtakeWhile isBlank = q.takeWhile (· ≠ 61) :=
        List.rdropWhile_append_rtakeWhile
      rw [htake] at hsplit
      rw [← List.append_assoc, hsplit]
      exact hs
    generalize (q.takeWhile (· ≠ 61)).rtakeWhile isBlank = b at hb hq
    rw [hq, matchText_self]
    refine ⟨rfl, ?_⟩
    rw [skipBlanks_append_blank hb]
    rfl

theorem skipBlanks_matchText (h : 61 ∈ q ∧ (q.takeWhile (· ≠ 61)).rdropWhile isBlank = key) :
    skipBlanks (Ini.matchText q key).1 = q.dropWhile (· ≠ 61) := by
  obtain ⟨hm, hhead⟩ := (hk.matchText q).mpr h
  obtain ⟨s, hs⟩ := List.head?_eq_some_iff.mp hhead
  obtain ⟨b, hb, hsplit⟩ := skipBlanks_split (Ini.matchText q key).1
  have hq : q = key ++ b ++ 61 :: s := by
    rw [List.append_assoc, ← hs, ← hsplit]
    exact eq_append_of_matchText hm
  obtain ⟨-, -, hdrop⟩ := hk.line hb s
  rw [hs]
  nth_rewrite 1 [hq]
  exact hdrop.symm

end LookupKey

theorem head_append_newline {x : UInt8} (hx : x ≠ 10) (p rest : Bytes) :
    (p ++ 10 :: rest).head? = some x ↔ p.head? = some x := by
  cases p with
  | nil => simpa using hx.symm
  | cons y p => rfl

theorem skipBlanks_suffix (p : Bytes) : skipBlanks p <:+ p := List.dropWhile_suffix _

theorem not_mem_skipBlanks (h : 10 ∉ p) : 10 ∉ skipBlanks p :=
  fun hm => h ((skipBlanks_suffix p).mem hm)

/-- **One line of the walk.** -/
theorem walk_line (hsec : SectionName sec) (hk : LookupKey key) (hl : 10 ∉ l) (c : Cursor)
    (rest : Bytes) :
    walk sec key c (l ++ 10 :: rest) =
      match lineKind l with
      | .blank => walk sec key c rest
      | .header name => walk sec key (c.pass (name = some sec) rest) rest
      | .entry k v =>
        if c.insect ∧ k = key then .found (v ++ 10 :: rest) rest
        else walk sec key (c.pass c.insect rest) rest
      | .other => walk sec key (c.pass c.insect rest) rest := by
  have hskip := skipBlanks_append l rest
  unfold lineKind
  cases hs : skipBlanks l with
  | nil =>
    rw [hs, List.nil_append] at hskip
    rw [walk_cons hskip, if_pos rfl]
  | cons x q =>
    rw [hs, List.cons_append] at hskip
    have hxq : 10 ∉ x :: q := hs ▸ not_mem_skipBlanks hl
    have hx : x ≠ 10 := fun he => hxq (he ▸ List.mem_cons_self)
    have hq : 10 ∉ q := fun hm => hxq (List.mem_cons_of_mem _ hm)
    rw [walk_cons hskip, if_neg hx]
    by_cases hbr : x = 91
    · have hm : 10 ∉ (matchText q sec).1 := fun hm => hq ((matchText_suffix q sec).mem hm)
      simp only [if_pos hbr]
      rw [matchText_append hsec.newline]
      simp only [nextLine_append hm, head_append_newline (by decide : (93 : UInt8) ≠ 10),
        matchText_header hsec.bracket]
    · simp only [if_neg hbr]
      by_cases hin : c.insect = true
      · rw [if_pos hin, ← List.cons_append, matchText_append hk.newline]
        have hm : 10 ∉ skipBlanks (matchText (x :: q) key).1 :=
          not_mem_skipBlanks fun hm => hxq ((matchText_suffix (x :: q) key).mem hm)
        simp only [skipBlanks_append, nextLine_append hm,
          head_append_newline (by decide : (61 : UInt8) ≠ 10), hk.matchText]
        by_cases hfound : 61 ∈ x :: q ∧ ((x :: q).takeWhile (· ≠ 61)).rdropWhile isBlank = key
        · have hdrop : 10 ∉ ((x :: q).dropWhile (· ≠ 61)).tail := fun hm =>
            hxq ((List.dropWhile_suffix _).mem (List.mem_of_mem_tail hm))
          obtain ⟨s, hs', -⟩ := Lines.takeWhile_append hfound.1
          have hne : (x :: q).dropWhile (· ≠ 61) ≠ [] := by
            rw [hs', Lines.dropWhile_append_cons (Lines.not_mem_takeWhile 61 _)]
            exact List.cons_ne_nil 61 s
          rw [if_pos hfound, if_pos hfound.1]
          simp only [hk.skipBlanks_matchText hfound, hin, hfound.2, and_self, if_true,
            List.tail_append_of_ne_nil hne, skipBlanks_append,
            nextLine_append (not_mem_skipBlanks hdrop)]
        · rw [if_neg hfound]
          by_cases h61 : 61 ∈ x :: q
          · rw [if_pos h61]
            exact (if_neg fun h => hfound ⟨h61, h.2⟩).symm
          · rw [if_neg h61]
      · rw [if_neg hin, ← List.cons_append, nextLine_append hxq]
        by_cases h61 : 61 ∈ x :: q
        · rw [if_pos h61]
          exact (if_neg fun h => hin h.1).symm
        · rw [if_neg h61]

/-! ## What the lines mean -/

/-- A value under section and key. -/
abbrev Entry := (Bytes × Bytes) × Bytes

/-- The section after a line. -/
def sectionAfter (cur : Option Bytes) (l : Bytes) : Option Bytes :=
  match lineKind l with
  | .header name => name
  | _ => cur

def lineEntry (cur : Option Bytes) (l : Bytes) : List Entry :=
  match cur, lineKind l with
  | some s, .entry k v => [((s, k), v.rdropWhile isBlank)]
  | _, _ => []

def sectionAt (cur : Option Bytes) (ls : List Bytes) : Option Bytes := ls.foldl sectionAfter cur

/-- The entries of the lines, in order. -/
def entries : Option Bytes → List Bytes → List Entry
  | _, [] => []
  | cur, l :: ls => lineEntry cur l ++ entries (sectionAfter cur l) ls

theorem sectionAt_append (cur : Option Bytes) (a b : List Bytes) :
    sectionAt cur (a ++ b) = sectionAt (sectionAt cur a) b :=
  List.foldl_append

theorem entries_append (cur : Option Bytes) (a b : List Bytes) :
    entries cur (a ++ b) = entries cur a ++ entries (sectionAt cur a) b := by
  induction a generalizing cur with
  | nil => rfl
  | cons l a ih =>
    rw [List.cons_append, entries, ih, entries, List.append_assoc]
    rfl

theorem lineEntry_eq_nil (h : ∀ k v, lineKind l ≠ .entry k v) : lineEntry cur l = [] := by
  unfold lineEntry
  split
  · rename_i he
    exact (h _ _ he).elim
  · rfl

/-- Empty lines have no entries. -/
theorem entries_blank (h : ∀ l ∈ ls, lineKind l = .blank) : entries cur ls = [] := by
  induction ls generalizing cur with
  | nil => rfl
  | cons l ls ih =>
    have hl := h l List.mem_cons_self
    rw [entries, ih fun l hm => h l (List.mem_cons_of_mem _ hm), List.append_nil]
    exact lineEntry_eq_nil fun k v he => by rw [hl] at he; cases he

/-! ## The walk over the lines -/

/-- What the cursor has noted about the lines it has passed. -/
structure Noted (sec : Bytes) (done rest : List Bytes) (c : Cursor) : Prop where
  insect : c.insect = true ↔ sectionAt none done = some sec
  secinsert : ∀ p, c.secinsert = some p →
    ∃ d1 d2, done = d1 ++ d2 ∧ p = text (d2 ++ rest) ∧ sectionAt none d1 = some sec
  pastinsert : c.secinsert = none →
    ∃ d1 d2, done = d1 ++ d2 ∧ (∀ l ∈ d2, lineKind l = .blank) ∧
      match c.pastinsert with
      | some p => p = text (d2 ++ rest)
      | none => d1 = []

namespace Noted

theorem start (sec : Bytes) (rest : List Bytes) : Noted sec [] rest .start where
  insect := iff_of_false Bool.false_ne_true (by simp [sectionAt])
  secinsert := fun _ h => by cases h
  pastinsert := fun _ => ⟨[], [], rfl, by simp, rfl⟩

theorem blank {rest : List Bytes} (h : Noted sec done (l :: rest) c) (hl : lineKind l = .blank) :
    Noted sec (done ++ [l]) rest c where
  insect := by
    have hs : sectionAt none (done ++ [l]) = sectionAt none done := by
      rw [sectionAt_append]
      simp [sectionAt, sectionAfter, hl]
    rw [hs]
    exact h.insect
  secinsert := fun p hp => by
    obtain ⟨d1, d2, hd, htext, hs⟩ := h.secinsert p hp
    exact ⟨d1, d2 ++ [l], by rw [hd, List.append_assoc], by rw [htext]; simp, hs⟩
  pastinsert := fun hp => by
    obtain ⟨d1, d2, hd, hblank, htext⟩ := h.pastinsert hp
    refine ⟨d1, d2 ++ [l], by rw [hd, List.append_assoc], ?_, ?_⟩
    · intro l' hl'
      rcases List.mem_append.mp hl' with hl' | hl'
      · exact hblank l' hl'
      · rw [List.mem_singleton.mp hl']
        exact hl
    · split at htext
      · rw [htext]
        simp
      · exact htext

/-- After a line that is not empty. -/
theorem pass {rest : List Bytes} {insect : Bool} (h : Noted sec done (l :: rest) c)
    (hs : insect = true ↔ sectionAt none (done ++ [l]) = some sec) :
    Noted sec (done ++ [l]) rest (c.pass insect (text rest)) := by
  unfold Cursor.pass
  split
  · rename_i hin
    refine ⟨hs, fun p hp => ?_, fun hp => by cases hp⟩
    cases hp
    exact ⟨done ++ [l], [], by simp, rfl, hs.mp hin⟩
  · refine ⟨hs, fun p hp => ?_, fun hp => ⟨done ++ [l], [], by simp, by simp, rfl⟩⟩
    obtain ⟨d1, d2, hd, htext, hs'⟩ := h.secinsert p hp
    exact ⟨d1, d2 ++ [l], by rw [hd, List.append_assoc], by rw [htext]; simp, hs'⟩

end Noted

/-- How the walk over the lines ends. -/
inductive Outcome (sec key : Bytes) (ls : List Bytes) : Walk → Prop
  | found {pre post : List Bytes} {l v : Bytes} (hlines : ls = pre ++ l :: post)
      (hsec : sectionAt none pre = some sec) (hl : lineKind l = .entry key v)
      (hfirst : (entries none pre).lookup (sec, key) = none) :
      Outcome sec key ls (.found (v ++ 10 :: text post) (text post))
  | missing {c : Cursor} (hnoted : Noted sec ls [] c)
      (hnone : (entries none ls).lookup (sec, key) = none) : Outcome sec key ls (.missing c)

/-- The walk over the lines that are left. -/
theorem walk_outcome (hsec : SectionName sec) (hk : LookupKey key) {rest : List Bytes}
    (hl : ∀ l ∈ rest, 10 ∉ l) (hnoted : Noted sec done rest c)
    (hnone : (entries none done).lookup (sec, key) = none) :
    Outcome sec key (done ++ rest) (walk sec key c (text rest)) := by
  induction rest generalizing done c with
  | nil =>
    rw [List.append_nil]
    exact walk_nil (p := text []) rfl ▸ .missing hnoted hnone
  | cons l rest ih =>
    have hrest : ∀ l ∈ rest, 10 ∉ l := fun l hm => hl l (List.mem_cons_of_mem _ hm)
    have hcons : done ++ l :: rest = (done ++ [l]) ++ rest := by simp
    have hsame (h : ∀ name, lineKind l ≠ .header name) :
        sectionAt none (done ++ [l]) = sectionAt none done := by
      rw [sectionAt_append]
      show sectionAfter _ l = _
      unfold sectionAfter
      split
      · rename_i he
        exact (h _ he).elim
      · rfl
    have hnext (h : (lineEntry (sectionAt none done) l).lookup (sec, key) = none) :
        (entries none (done ++ [l])).lookup (sec, key) = none := by
      rw [entries_append, List.lookup_append, hnone]
      simpa [entries] using h
    rw [text_cons, walk_line hsec hk (hl l List.mem_cons_self)]
    cases hkind : lineKind l with
    | blank =>
      dsimp only
      rw [hcons]
      refine ih hrest (hnoted.blank hkind) (hnext ?_)
      rw [lineEntry_eq_nil fun k v he => by rw [hkind] at he; cases he]
      rfl
    | header name =>
      dsimp only
      rw [hcons]
      refine ih hrest (hnoted.pass ?_) (hnext ?_)
      · rw [sectionAt_append]
        simp [sectionAt, sectionAfter, hkind]
      · rw [lineEntry_eq_nil fun k v he => by rw [hkind] at he; cases he]
        rfl
    | entry k v =>
      dsimp only
      have hsec' := hsame fun name he => by rw [hkind] at he; cases he
      split
      · rename_i hfound
        obtain ⟨hin, rfl⟩ := hfound
        exact .found rfl (hnoted.insect.mp hin) hkind hnone
      · rename_i hother
        rw [hcons]
        refine ih hrest (hnoted.pass (by rw [hsec']; exact hnoted.insect)) (hnext ?_)
        unfold lineEntry
        rw [hkind]
        split
        · rename_i s k' v' hcur he
          cases he
          rw [List.lookup_eq_none_iff]
          intro p hp
          rw [List.mem_singleton.mp hp, bne_iff_ne]
          intro he
          obtain ⟨rfl, rfl⟩ := Prod.mk.inj he
          exact hother ⟨hnoted.insect.mpr hcur, rfl⟩
        · rfl
    | other =>
      dsimp only
      have hsec' := hsame fun name he => by rw [hkind] at he; cases he
      rw [hcons]
      refine ih hrest (hnoted.pass (by rw [hsec']; exact hnoted.insect)) (hnext ?_)
      rw [lineEntry_eq_nil fun k v he => by rw [hkind] at he; cases he]
      rfl

/-! ## Lookup -/

/-- The text ends in a newline, if there is one. -/
def Terminated (data : Option Bytes) : Prop := ∀ s ∈ data, s.getLast? = some 10

/-- The entries of a text. -/
def Denotes (data : Option Bytes) (es : List Entry) : Prop :=
  ∃ ls, (∀ l ∈ ls, 10 ∉ l) ∧ data.getD [] = text ls ∧ entries none ls = es

theorem Terminated.denotes {data : Option Bytes} (h : Terminated data) : ∃ es, Denotes data es := by
  cases data with
  | none => exact ⟨_, [], by simp, rfl, rfl⟩
  | some s =>
    obtain ⟨ls, hls, hs⟩ := Lines.exists_join (h s rfl)
    exact ⟨_, ls, hls, hs, rfl⟩

theorem valueAt_append {v : Bytes} (hv : 10 ∉ v) (rest : Bytes) :
    valueAt (v ++ 10 :: rest) = v.rdropWhile isBlank := by
  unfold valueAt
  rw [(Lines.takeWhile_eq_iff.mpr ⟨hv, rest, rfl⟩).2]

/-- A line with an entry. -/
theorem lineKind_of_entry {b k : Bytes} (hb : ∀ x ∈ b, isBlank x = true) (hk : 61 ∉ k)
    (hfirst : ∀ x ∈ (k ++ [61]).head?, isBlank x = false ∧ x ≠ 91) (s : Bytes) :
    lineKind (b ++ (k ++ 61 :: s)) = .entry (k.rdropWhile isBlank) (skipBlanks s) := by
  obtain ⟨x, y, hxy, hx⟩ : ∃ x y, k ++ 61 :: s = x :: y ∧ x ∈ (k ++ [61]).head? := by
    cases k with
    | nil => exact ⟨61, s, rfl, rfl⟩
    | cons a k => exact ⟨a, k ++ 61 :: s, rfl, rfl⟩
  obtain ⟨hblank, hbr⟩ := hfirst x hx
  have hskip : skipBlanks (b ++ (k ++ 61 :: s)) = x :: y := by
    rw [skipBlanks_append_blank hb, hxy, skipBlanks_of_first]
    intro x' hx'
    cases hx'
    exact hblank
  obtain ⟨hmem, htake⟩ := Lines.takeWhile_eq_iff.mpr ⟨hk, s, hxy.symm⟩
  have hdrop := Lines.dropWhile_append_cons hk s
  rw [hxy] at hdrop
  unfold lineKind
  rw [hskip]
  dsimp only
  rw [if_neg hbr, if_pos hmem, htake, hdrop]
  rfl

/-- The value on a line is the end of the line. -/
theorem lineKind_entry {v : Bytes} (h : lineKind l = .entry key v) :
    ∃ lead, l = lead ++ v ∧ ∀ v', lineKind (lead ++ v') = .entry key (skipBlanks v') := by
  obtain ⟨b, hb, hl⟩ := skipBlanks_split l
  unfold lineKind at h
  cases hs : skipBlanks l with
  | nil => rw [hs] at h; cases h
  | cons x q =>
    rw [hs] at h hl
    dsimp only at h
    split at h
    · cases h
    · rename_i hbr
      split at h
      · rename_i h61
        obtain ⟨s, hxq, -⟩ := Lines.takeWhile_append h61
        have hnot := Lines.not_mem_takeWhile 61 (x :: q)
        obtain ⟨b', hb', hs'⟩ := skipBlanks_split s
        have hdrop := Lines.dropWhile_append_cons hnot s
        rw [← hxq] at hdrop
        rw [hdrop] at h
        have hfirst : ∀ y ∈ ((x :: q).takeWhile (· ≠ 61) ++ [61]).head?,
            isBlank y = false ∧ y ≠ 91 := by
          intro y hy
          have hyx : y = x := by
            have hhead : (x :: q).head? = some y := by
              rw [hxq]
              cases htake : (x :: q).takeWhile (· ≠ 61) with
              | nil => rw [htake] at hy; exact hy
              | cons a k => rw [htake] at hy; exact hy
            exact (Option.some.inj hhead).symm
          rw [hyx]
          exact ⟨first_skipBlanks hs, hbr⟩
        generalize (x :: q).takeWhile (· ≠ 61) = k at h hxq hnot hfirst
        cases h
        refine ⟨b ++ (k ++ 61 :: b'), ?_, fun v' => ?_⟩
        · rw [hl, hxq]
          nth_rewrite 1 [hs']
          simp
        · have hline := lineKind_of_entry hb hnot hfirst (b' ++ v')
          rw [skipBlanks_append_blank hb'] at hline
          rw [← hline]
          simp
      · cases h

/-- The line of a new entry. -/
theorem lineKind_new (hk : EntryKey key) (value : Bytes) :
    lineKind (key ++ 61 :: value) = .entry key (skipBlanks value) := by
  have hfirst : ∀ x ∈ (key ++ [61]).head?, isBlank x = false ∧ x ≠ 91 := by
    intro x hx
    cases hkey : key with
    | nil =>
      rw [hkey] at hx
      cases hx
      exact ⟨rfl, by decide⟩
    | cons y k =>
      have hhead : key.head? = some x := by
        rw [hkey] at hx ⊢
        exact hx
      exact ⟨hk.first x hhead, fun he => hk.bracket (he ▸ hhead)⟩
  have hline := lineKind_of_entry (b := []) (by simp) hk.equals hfirst value
  rwa [hk.rdropWhile] at hline

variable {malloc : Nat → Bool} {data : Option Bytes} {es : List Entry}

/-- **Lookup** returns the first value under the key. -/
theorem lookup_entries (hmem : ∀ n, malloc n = true) (hsec : SectionName sec) (hk : LookupKey key)
    (h : Denotes data es) : iniEntry malloc data sec key none = es.lookup (sec, key) := by
  obtain ⟨ls, hls, hdata, rfl⟩ := h
  have hout := walk_outcome hsec hk hls (.start sec ls) rfl
  rw [List.nil_append, ← hdata] at hout
  unfold iniEntry lookup
  generalize walk sec key .start (data.getD []) = w at hout
  cases hout with
  | @found pre post l v hlines hs hl hfirst =>
    obtain ⟨lead, hlead, -⟩ := lineKind_entry hl
    have hv : 10 ∉ v := fun hm => hls l (hlines ▸ List.mem_append_right _ List.mem_cons_self)
      (hlead ▸ List.mem_append_right _ hm)
    dsimp only
    rw [if_pos (hmem _), valueAt_append hv, hlines, entries_append, List.lookup_append, hfirst, hs]
    simp [entries, lineEntry, hl]
  | missing _ hnone => exact hnone.symm

/-! ## Storing a value -/

/-- A value is put under a key: in the place of the first one, or anew. -/
inductive Put {α β : Type*} [BEq α] (k : α) (v : β) : List (α × β) → List (α × β) → Prop
  | replace {es1 es2 : List (α × β)} (old : β) (h : es1.lookup k = none) :
      Put k v (es1 ++ (k, old) :: es2) (es1 ++ (k, v) :: es2)
  | insert {es1 es2 : List (α × β)} (h : (es1 ++ es2).lookup k = none) :
      Put k v (es1 ++ es2) (es1 ++ (k, v) :: es2)

namespace Put

variable {α β : Type*} [BEq α] [LawfulBEq α] {k j : α} {v : β} {l l' : List (α × β)}

theorem lookup_self (h : Put k v l l') : l'.lookup k = some v := by
  cases h with
  | replace old h => simp [List.lookup_append, h]
  | insert h =>
    rw [List.lookup_append, Option.or_eq_none_iff] at h
    simp [List.lookup_append, h.1]

theorem lookup_other (h : Put k v l l') (hj : j ≠ k) : l'.lookup j = l.lookup j := by
  have hne : (j == k) = false := beq_eq_false_iff_ne.mpr hj
  cases h with
  | replace old h => simp [List.lookup_append, List.lookup_cons, hne]
  | insert h => simp [List.lookup_append, List.lookup_cons, hne]

end Put

/-- The insertion fits the text: `a` is kept before it, `m` is replaced by it. -/
structure Insert.Fits (r : Insert) (data : Option Bytes) (a m : Bytes) : Prop where
  split : data.getD [] = a ++ (m ++ r.ce)
  cb : r.cb = m ++ r.ce
  len : r.len = (data.getD []).length

theorem Insert.Fits.written {r : Insert} {a m : Bytes} (h : r.Fits data a m) :
    r.written data sec key value = a ++ r.added sec key ++ value ++ [10] ++ r.ce := by
  have hce : (if data.isSome then r.ce.take (r.len - ((data.getD []).length - r.ce.length)) else [])
      = r.ce := by
    cases hd : data with
    | none =>
      have hnil := h.split
      rw [hd] at hnil
      simpa using (List.append_eq_nil_iff.mp (List.append_eq_nil_iff.mp hnil.symm).2).2.symm
    | some s =>
      have hlen := congrArg List.length h.split
      rw [List.length_append, List.length_append] at hlen
      rw [← hd, h.len, if_pos (by rw [hd]; rfl), List.take_of_length_le (by omega)]
  unfold Insert.written
  dsimp only
  rw [hce, h.split, h.cb, List.length_append, Nat.add_sub_cancel, List.take_left']
  rfl

theorem Insert.nlen_written {r : Insert} {a m : Bytes} (h : r.Fits data a m)
    (hb : r.ll + r.sl + r.kl = (r.added sec key).length) :
    r.nlen value = (r.written data sec key value).length := by
  have hlen := congrArg List.length h.split
  rw [h.written]
  unfold Insert.nlen
  rw [h.len, h.cb]
  simp only [List.length_append, List.length_singleton] at *
  omega

/-- The value as it is found again. -/
def trim (value : Bytes) : Bytes := (skipBlanks value).rdropWhile isBlank

theorem lineKind_header (hsec : SectionName sec) :
    lineKind (91 :: (sec ++ [93])) = .header (some sec) := by
  obtain ⟨hmem, htake⟩ := Lines.takeWhile_eq_iff.mpr ⟨hsec.bracket, [], rfl⟩
  have hskip : skipBlanks (91 :: (sec ++ [93])) = 91 :: (sec ++ [93]) := rfl
  unfold lineKind
  rw [hskip]
  dsimp only
  rw [if_pos rfl, if_pos hmem, htake]

theorem entries_new (hk : EntryKey key) (value : Bytes) (ls : List Bytes) :
    entries (some sec) ((key ++ 61 :: value) :: ls) =
      ((sec, key), trim value) :: entries (some sec) ls := by
  have hl := lineKind_new hk value
  simp [entries, lineEntry, sectionAfter, hl, trim]

variable (cur) in
theorem entries_header (hsec : SectionName sec) (hk : EntryKey key) (value : Bytes)
    (ls : List Bytes) :
    entries cur ((91 :: (sec ++ [93])) :: (key ++ 61 :: value) :: ls) =
      ((sec, key), trim value) :: entries (some sec) ls := by
  have hl := lineKind_header hsec
  rw [entries, lineEntry_eq_nil (by simp [hl]), List.nil_append]
  have hs : sectionAfter cur (91 :: (sec ++ [93])) = some sec := by simp [sectionAfter, hl]
  rw [hs, entries_new hk]

theorem entries_nil (ls : List Bytes) : entries cur ([] :: ls) = entries cur ls := by
  have hl : lineKind [] = .blank := rfl
  simp [entries, lineEntry, sectionAfter, hl]

/-- What the insertion does to the text. -/
structure Stored (data : Option Bytes) (es : List Entry) (sec key value : Bytes) (r : Insert) :
    Prop where
  fits : ∃ a m, r.Fits data a m
  balanced : r.ll + r.sl + r.kl = (r.added sec key).length
  denotes : ∃ ls, (∀ l ∈ ls, 10 ∉ l) ∧ r.written data sec key value = text ls ∧
    Put (sec, key) (trim value) es (entries none ls)

theorem insertAt_stored (hsec : SectionName sec) (hk : EntryKey key) (hv : 10 ∉ value)
    (h : Denotes data es) :
    Stored data es sec key value (insertion data sec key) := by
  unfold insertion
  obtain ⟨ls, hls, hdata, rfl⟩ := h
  have hout := walk_outcome hsec hk.toLookupKey hls (.start sec ls) rfl
  rw [List.nil_append, ← hdata] at hout
  have hnew : 10 ∉ key ++ 61 :: value := by
    intro hm
    rcases List.mem_append.mp hm with hm | hm
    · exact hk.newline hm
    · rcases List.mem_cons.mp hm with hm | hm
      · exact absurd hm (by decide)
      · exact hv hm
  have hheader : 10 ∉ 91 :: (sec ++ [93]) := by
    intro hm
    rcases List.mem_cons.mp hm with hm | hm
    · exact absurd hm (by decide)
    · rcases List.mem_append.mp hm with hm | hm
      · exact hsec.newline hm
      · exact absurd (List.mem_singleton.mp hm) (by decide)
  generalize walk sec key .start (data.getD []) = w at hout
  cases hout with
  | @found pre post l v hlines hs hl hfirst =>
    obtain ⟨lead, hlead, hline⟩ := lineKind_entry hl
    have hfits : (insertAt (data.getD []) sec key (.found (v ++ 10 :: text post) (text post))).Fits
        data (text pre ++ lead) (v ++ [10]) := by
      have hd : data.getD [] = text pre ++ lead ++ (v ++ [10] ++ text post) := by
        rw [hdata, hlines, hlead]
        simp
      refine ⟨hd, by simp [insertAt], ?_⟩
      have hlen := congrArg List.length hd
      simp only [List.length_append] at hlen
      simp only [insertAt]
      omega
    refine ⟨⟨_, _, hfits⟩, rfl, pre ++ (lead ++ value) :: post, ?_, ?_, ?_⟩
    · have hpre : ∀ l' ∈ pre ++ l :: post, 10 ∉ l' := by rw [← hlines]; exact hls
      intro l' hl'
      rcases List.mem_append.mp hl' with hl' | hl'
      · exact hpre l' (List.mem_append_left _ hl')
      · rcases List.mem_cons.mp hl' with rfl | hl'
        · have hlast := hpre l (List.mem_append_right _ List.mem_cons_self)
          rw [hlead] at hlast
          intro hm
          rcases List.mem_append.mp hm with hm | hm
          · exact hlast (List.mem_append_left _ hm)
          · exact hv hm
        · exact hpre l' (List.mem_append_right _ (List.mem_cons_of_mem _ hl'))
    · rw [hfits.written]
      simp [insertAt, Insert.added]
    · have hold : entries none ls = entries none pre ++
          ((sec, key), v.rdropWhile isBlank) :: entries (some sec) post := by
        rw [hlines, entries_append, hs]
        simp [entries, lineEntry, sectionAfter, hl]
      have hput : entries none (pre ++ (lead ++ value) :: post) = entries none pre ++
          ((sec, key), trim value) :: entries (some sec) post := by
        rw [entries_append, hs]
        simp [entries, lineEntry, sectionAfter, hline, trim]
      rw [hold, hput]
      exact .replace _ hfirst
  | @missing c hnoted hnone =>
    obtain ⟨insect, secinsert, pastinsert⟩ := c
    -- the new lines go between two lines of the text
    have hlines {d1 d2 new : List Bytes} (hd : ls = d1 ++ d2) (hnew : ∀ l ∈ new, 10 ∉ l) :
        ∀ l ∈ d1 ++ (new ++ d2), 10 ∉ l := by
      intro l hl
      simp only [List.mem_append] at hl
      rcases hl with hl | hl | hl
      · exact hls l (hd ▸ List.mem_append_left _ hl)
      · exact hnew l hl
      · exact hls l (hd ▸ List.mem_append_right _ hl)
    cases secinsert with
    | some p =>
      obtain ⟨d1, d2, hd, hp, hs⟩ := hnoted.secinsert p rfl
      rw [List.append_nil] at hp
      have hfits : (insertAt (data.getD []) sec key (.missing ⟨insect, some p, pastinsert⟩)).Fits
          data (text d1) [] := by
        refine ⟨?_, rfl, rfl⟩
        rw [hdata, hd, List.nil_append]
        simp [insertAt, hp]
      refine ⟨⟨_, _, hfits⟩, ?_, d1 ++ ([key ++ 61 :: value] ++ d2), hlines hd (by simpa using hnew),
        ?_, ?_⟩
      · simp [insertAt, Insert.added]
      · rw [hfits.written]
        simp [insertAt, Insert.added, hp]
      · rw [entries_append, hs, List.singleton_append, entries_new hk, hd, entries_append, hs]
        rw [hd, entries_append, hs] at hnone
        exact .insert hnone
    | none =>
      obtain ⟨d1, d2, hd, hblank, hp⟩ := hnoted.pastinsert rfl
      have hentries : entries none ls = entries none d1 := by
        rw [hd, entries_append, entries_blank hblank, List.append_nil]
      have hput : Put (sec, key) (trim value) (entries none d1)
          (entries none d1 ++ [((sec, key), trim value)]) := by
        rw [hentries, ← List.append_nil (entries none d1)] at hnone
        simpa using Put.insert (v := trim value) hnone
      have hadded := entries_header (sectionAt none d1) hsec hk value d2
      rw [entries_blank hblank] at hadded
      rw [hentries]
      cases pastinsert with
      | some p =>
        dsimp only at hp
        rw [List.append_nil] at hp
        have hfits : (insertAt (data.getD []) sec key (.missing ⟨insect, none, some p⟩)).Fits
            data (text d1) [] := by
          refine ⟨?_, rfl, rfl⟩
          rw [hdata, hd, List.nil_append]
          simp [insertAt, hp]
        refine ⟨⟨_, _, hfits⟩, ?_, d1 ++ ([[], 91 :: (sec ++ [93]), key ++ 61 :: value] ++ d2),
          hlines hd ?_, ?_, ?_⟩
        · simp [insertAt, Insert.added]
          omega
        · simp only [List.forall_mem_cons]
          exact ⟨List.not_mem_nil, hheader, hnew, by simp⟩
        · rw [hfits.written]
          simp [insertAt, Insert.added, hp]
        · rw [entries_append, List.cons_append, entries_nil]
          exact hadded ▸ hput
      | none =>
        dsimp only at hp
        subst hp
        have hfits : (insertAt (data.getD []) sec key (.missing ⟨insect, none, none⟩)).Fits
            data [] [] := ⟨rfl, rfl, rfl⟩
        refine ⟨⟨_, _, hfits⟩, ?_, [] ++ ([91 :: (sec ++ [93]), key ++ 61 :: value] ++ d2),
          hlines hd ?_, ?_, ?_⟩
        · simp [insertAt, Insert.added]
          omega
        · simp only [List.forall_mem_cons]
          exact ⟨hheader, hnew, by simp⟩
        · rw [hfits.written]
          simp [insertAt, Insert.added, hdata, hd]
        · exact hadded ▸ hput

theorem getLast_text (h : ls ≠ []) : (text ls).getLast? = some 10 := by
  obtain ⟨init, l, rfl⟩ := (List.eq_nil_or_concat ls).resolve_left h
  simp

/-- **Storing** puts the value under its key, into a buffer of the right size. -/
theorem store_entries (hmem : ∀ n, malloc n = true) (hsec : SectionName sec) (hk : EntryKey key)
    (hv : 10 ∉ value) (h : Denotes data es) :
    ∃ s es', iniEntry malloc data sec key (some value) = some s ∧ Terminated (some s) ∧
      allocated data sec key value = s.length + 1 ∧ Denotes (some s) es' ∧
      Put (sec, key) (trim value) es es' := by
  obtain ⟨⟨a, m, hfits⟩, hb, ls, hls, htext, hput⟩ := insertAt_stored hsec hk hv h
  refine ⟨_, _, if_pos (hmem _), ?_, ?_, ⟨ls, hls, htext, rfl⟩, hput⟩
  · rintro s ⟨⟩
    rw [htext]
    refine getLast_text fun hnil => ?_
    rw [hnil] at hput
    exact absurd hput.lookup_self (by simp [entries])
  · exact congrArg (· + 1) (Insert.nlen_written hfits hb)

/-- **A store on text**: after a value was stored it is found under its key, without the blanks
around it, and every other key has the value that it had; the text ends in a newline again, and
the buffer is as large as the text and its zero. -/
theorem iniEntry_stores (hmem : ∀ n, malloc n = true) (hdata : Terminated data)
    (hsec : SectionName sec) (hk : KeyName key) (hv : 10 ∉ value) :
    ∃ s, iniEntry malloc data sec key (some value) = some s ∧ s.getLast? = some 10 ∧
      allocated data sec key value = s.length + 1 ∧
      iniEntry malloc (some s) sec key none = some (trim value) ∧
      ∀ sec2 key2, SectionName sec2 → KeyName key2 → (sec2, key2) ≠ (sec, key) →
        iniEntry malloc (some s) sec2 key2 none = iniEntry malloc data sec2 key2 none := by
  obtain ⟨es, hes⟩ := hdata.denotes
  obtain ⟨s, es', hs, hterm, halloc, hes', hput⟩ := store_entries hmem hsec hk.entryKey hv hes
  refine ⟨s, hs, hterm s rfl, halloc, ?_, fun sec2 key2 hsec2 hk2 hne => ?_⟩
  · rw [lookup_entries hmem hsec hk.entryKey.toLookupKey hes', hput.lookup_self]
  · rw [lookup_entries hmem hsec2 hk2.entryKey.toLookupKey hes', lookup_entries hmem hsec2 hk2.entryKey.toLookupKey hes,
      hput.lookup_other hne]

/-- `[Desktop]` `Session=x` is stored into a file that has other settings. -/
theorem iniEntry_stores_session : ∃ s, iniEntry (fun _ => true)
      (some [91, 68, 93, 10, 97, 61, 98, 10]) [68] [83] (some [32, 120]) = some s ∧
    iniEntry (fun _ => true) (some s) [68] [83] none = some [120] := by
  have hsec : SectionName [68] := ⟨by decide, by decide⟩
  have hk : KeyName [83] := ⟨by decide, by decide, by decide, by decide, by rintro x ⟨⟩; rfl,
    by rintro x ⟨⟩; rfl⟩
  have hmem : ∀ n, (fun _ => true : Nat → Bool) n = true := fun _ => rfl
  have hdata : Terminated (some [91, 68, 93, 10, 97, 61, 98, 10]) := by rintro s ⟨⟩; rfl
  have hv : 10 ∉ ([32, 120] : Bytes) := by decide
  obtain ⟨s, hs, -, -, hself, -⟩ := iniEntry_stores hmem hdata hsec hk hv
  exact ⟨s, hs, hself⟩

end Kdm.Ini
