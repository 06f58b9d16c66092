import Kdm.Printf.Format
import Kdm.Lib.Escape

/-!
# Quoted strings

A string that is printed between quotes, or with its special characters quoted.

* `unescape` — how a character of it is read back.
* `Printable` — what is printed of it, whatever the string.

Principal results: `fmtstr_read_back`, and `doPrint_unprintable`: a format whose strings are all quoted
prints no control character but its own.
-/

namespace Kdm.Printf

open Escape

/-! ## Reading back -/

def isoctal (ch : UInt8) : Bool := 48 ≤ ch.toNat && ch.toNat ≤ 55

/-- The character that a letter behind the backslash is for. -/
def unletter (ch : UInt8) : Option UInt8 :=
  if ch = chr 'r' then some 13
  else if ch = chr 'n' then some 10
  else if ch = chr 't' then some 9
  else if ch = chr 'a' then some 7
  else if ch = chr 'b' then some 8
  else if ch = chr 'v' then some 11
  else if ch = chr 'f' then some 12
  else none

/-- Three octal digits. -/
def octal (a b c : UInt8) : UInt8 :=
  UInt8.ofNat ((a.toNat - 48) * 64 + (b.toNat - 48) * 8 + (c.toNat - 48))

def unescape : Text → Option (UInt8 × Text)
  | [] => none
  | ch :: s =>
    if ch ≠ chr '\\' then some (ch, s)
    else
      match s with
      | [] => none
      | l :: s =>
        match unletter l with
        | some ch => some (ch, s)
        | none =>
          if isoctal l then
            match s with
            | b :: c :: s => some (octal l b c, s)
            | _ => none
          else some (l, s)

/-- What is printed as it is. -/
def Printable (ch : UInt8) : Prop := 32 ≤ ch.toNat ∧ ch.toNat < 127

instance instDecidablePrintable (ch : UInt8) : Decidable (Printable ch) :=
  inferInstanceAs (Decidable (_ ∧ _))

theorem letter_unletter {ch l : UInt8} (h : letter ch = some l) : unletter l = some ch := by
  unfold letter at h
  split at h
  · cases h; subst ch; decide
  split at h
  · cases h; subst ch; decide
  split at h
  · cases h; subst ch; decide
  split at h
  · cases h; subst ch; decide
  split at h
  · cases h; subst ch; decide
  split at h
  · cases h; subst ch; decide
  split at h
  · cases h; subst ch; decide
  · cases h

theorem unletter_printable {ch l : UInt8} (h : unletter l = some ch) : Printable l := by
  unfold unletter at h
  split at h
  · subst l; decide
  split at h
  · subst l; decide
  split at h
  · subst l; decide
  split at h
  · subst l; decide
  split at h
  · subst l; decide
  split at h
  · subst l; decide
  split at h
  · subst l; decide
  · cases h

/-- The octal digits of a byte. -/
theorem fmtint_octal : ∀ n : Fin 256,
    fmtint (BitVec.ofNat 64 n) 8 3 3 { Flags.none with zero := true } =
        [UInt8.ofNat (48 + n / 64), UInt8.ofNat (48 + n / 8 % 8), UInt8.ofNat (48 + n % 8)] ∧
      octal (UInt8.ofNat (48 + n / 64)) (UInt8.ofNat (48 + n / 8 % 8)) (UInt8.ofNat (48 + n % 8)) =
        UInt8.ofNat n ∧
      isoctal (UInt8.ofNat (48 + n / 64)) = true ∧ unletter (UInt8.ofNat (48 + n / 64)) = none ∧
      Printable (UInt8.ofNat (48 + n / 64)) ∧ Printable (UInt8.ofNat (48 + n / 8 % 8)) ∧
      Printable (UInt8.ofNat (48 + n % 8)) := by
  decide +kernel

/-- How a character is written: as it is, by a letter, by its octal digits, or behind a backslash. -/
theorem quoteChar_cases (flags : Flags) (lastcol curcol : Nat) (ch : UInt8) :
    (∃ l, unletter l = some ch ∧ quoteChar flags lastcol curcol ch = [chr '\\', l]) ∨
    (∃ a b c, octal a b c = ch ∧ isoctal a = true ∧ unletter a = none ∧ Printable a ∧ Printable b ∧
      Printable c ∧ quoteChar flags lastcol curcol ch = [chr '\\', a, b, c]) ∨
    ((ch = chr '\'' ∨ ch = chr '"' ∨ ch = chr ' ' ∨ ch = chr '\\') ∧
      quoteChar flags lastcol curcol ch = [chr '\\', ch]) ∨
    (Printable ch ∧ ch ≠ chr '\\' ∧ (flags.squote = true → ch ≠ chr '\'') ∧
      (flags.dquote = true → ch ≠ chr '"') ∧
      (flags.backsl = true → curcol = 0 ∨ lastcol ≤ curcol → ch ≠ chr ' ') ∧
      quoteChar flags lastcol curcol ch = [ch]) := by
  unfold quoteChar
  cases hl : letter ch with
  | some l => exact Or.inl ⟨l, letter_unletter hl, rfl⟩
  | none =>
    dsimp only
    split
    · obtain ⟨hd, ho, hi, hu, ha, hb, hc⟩ := fmtint_octal ⟨ch.toNat, ch.toNat_lt⟩
      rw [UInt8.ofNat_toNat] at ho
      exact Or.inr (Or.inl ⟨_, _, _, ho, hi, hu, ha, hb, hc, congrArg _ hd⟩)
    · rename_i hctl
      split
      · rename_i hesc
        refine Or.inr (Or.inr (Or.inl ⟨?_, rfl⟩))
        obtain ⟨h, -⟩ | ⟨h, -⟩ | ⟨h, -⟩ | h := hesc
        · exact Or.inl h
        · exact Or.inr (Or.inl h)
        · exact Or.inr (Or.inr (Or.inl h))
        · exact Or.inr (Or.inr (Or.inr h))
      · rename_i hesc
        simp only [not_or, not_and] at hesc
        refine Or.inr (Or.inr (Or.inr ⟨?_, hesc.2.2.2, fun h he => hesc.1 he h,
          fun h he => hesc.2.1 he h, fun h hc he => ?_, rfl⟩))
        · unfold Printable
          simp only [schar, not_or, not_and] at hctl
          have := ch.toNat_lt
          split at hctl
          · omega
          · omega
        · obtain hcol | hcol := hc
          · exact (hesc.2.2.1 he h).1 hcol
          · exact (hesc.2.2.1 he h).2 hcol

theorem unescape_quoteChar (flags : Flags) (lastcol curcol : Nat) (ch : UInt8) (s : Text) :
    unescape (quoteChar flags lastcol curcol ch ++ s) = some (ch, s) := by
  obtain ⟨l, hl, h⟩ | ⟨a, b, c, ho, hi, hu, -, -, -, h⟩ | ⟨hch, h⟩ | ⟨-, hne, -, -, -, h⟩ :=
    quoteChar_cases flags lastcol curcol ch
  · simp [h, unescape, hl]
  · simp [h, unescape, hu, hi, ho]
  · have hnone : unletter ch = none ∧ isoctal ch = false := by
      obtain rfl | rfl | rfl | rfl := hch
      · decide
      · decide
      · decide
      · decide
    simp [h, unescape, hnone.1, hnone.2]
  · simp [h, unescape, hne]

/-- What is printed of a character, whatever it is. -/
theorem quoteChar_printable {flags : Flags} {lastcol curcol : Nat} {ch b : UInt8}
    (hb : b ∈ quoteChar flags lastcol curcol ch) : Printable b := by
  have hback : Printable (chr '\\') := by decide
  obtain ⟨l, hl, h⟩ | ⟨x, y, z, -, -, -, hx, hy, hz, h⟩ | ⟨hch, h⟩ | ⟨hp, -, -, -, -, h⟩ :=
    quoteChar_cases flags lastcol curcol ch
  · rw [h] at hb
    simp only [List.mem_cons, List.not_mem_nil, or_false] at hb
    obtain rfl | rfl := hb
    · exact hback
    · exact unletter_printable hl
  · rw [h] at hb
    simp only [List.mem_cons, List.not_mem_nil, or_false] at hb
    obtain rfl | rfl | rfl | rfl := hb
    · exact hback
    · exact hx
    · exact hy
    · exact hz
  · rw [h] at hb
    simp only [List.mem_cons, List.not_mem_nil, or_false] at hb
    obtain rfl | rfl := hb
    · exact hback
    · obtain rfl | rfl | rfl | rfl := hch
      · decide
      · decide
      · decide
      · decide
  · rw [h, List.mem_singleton] at hb
    exact hb ▸ hp

/-! ## Strings -/

/-- The mark at the end of a string. -/
def isQuote (flags : Flags) (ch : UInt8) : Bool := quote flags == [ch]

/-- Between quotes no word begins with one. -/
theorem quoteChar_unmarked (flags : Flags) (lastcol curcol : Nat) (ch : UInt8) :
    ∃ b t, quoteChar flags lastcol curcol ch = b :: t ∧ isQuote flags b = false := by
  have hback : isQuote flags (chr '\\') = false := by
    unfold isQuote quote
    split
    · decide
    · split
      · decide
      · decide
  obtain ⟨l, -, h⟩ | ⟨x, y, z, -, -, -, -, -, -, h⟩ | ⟨-, h⟩ | ⟨-, -, hs, hd, -, h⟩ :=
    quoteChar_cases flags lastcol curcol ch
  · exact ⟨_, _, h, hback⟩
  · exact ⟨_, _, h, hback⟩
  · exact ⟨_, _, h, hback⟩
  · refine ⟨_, _, h, ?_⟩
    unfold isQuote quote
    split
    · rename_i hq
      simpa using (hs hq).symm
    · split
      · rename_i hq
        simpa using (hd hq).symm
      · rfl

/-- The quotes, and what is never printed, are marks. -/
def Marks (flags : Flags) (stop : UInt8 → Bool) : Prop :=
  ∀ b, stop b = true → isQuote flags b = true ∨ ¬ Printable b

theorem quoteChar_word {flags : Flags} {stop : UInt8 → Bool} (hs : Marks flags stop)
    (lastcol curcol : Nat) (ch : UInt8) :
    Word stop unescape (quoteChar flags lastcol curcol ch) ch := by
  refine ⟨?_, unescape_quoteChar flags lastcol curcol ch⟩
  obtain ⟨b, t, h, hb⟩ := quoteChar_unmarked flags lastcol curcol ch
  refine ⟨b, t, h, ?_⟩
  by_contra hstop
  obtain hq | hp := hs b (by simpa using hstop)
  · rw [hb] at hq
    cases hq
  · exact hp (quoteChar_printable (h ▸ List.mem_cons_self))

/-- A quoted string spells the string. -/
theorem fmtchars_spells {flags : Flags} (hq : flags.quotes = true) {stop : UInt8 → Bool}
    (hs : Marks flags stop) (lastcol curcol : Nat) (s : Text) :
    Spells stop unescape (fmtchars flags lastcol curcol s) s := by
  induction s generalizing curcol with
  | nil => exact .nil
  | cons ch cs ih =>
    unfold fmtchars
    rw [if_pos hq]
    exact .cons (quoteChar_word hs lastcol curcol ch) (ih (curcol + 1))

theorem fmtchars_printable {flags : Flags} (hq : flags.quotes = true) {lastcol curcol : Nat}
    {s : Text} {b : UInt8} (hb : b ∈ fmtchars flags lastcol curcol s) : Printable b := by
  induction s generalizing curcol with
  | nil => cases hb
  | cons ch cs ih =>
    unfold fmtchars at hb
    rw [if_pos hq, List.mem_append] at hb
    obtain hb | hb := hb
    · exact quoteChar_printable hb
    · exact ih hb

/-- Reads what is printed for a string between quotes: a null pointer has none. -/
def readString (flags : Flags) (s : Text) : Option (Option Text × Text) :=
  match s.dropWhile (· = chr ' ') with
  | [] => none
  | ch :: s =>
    if isQuote flags ch then (field (isQuote flags) unescape (s.length + 1) s).map fun r => (some r.1, r.2)
    else if ch :: s.take 3 = str "NULL" then some (none, s.drop 3)
    else none

theorem quote_eq {flags : Flags} (hq : flags.squote = true ∨ flags.dquote = true) :
    ∃ q, quote flags = [q] ∧ isQuote flags q = true ∧ q ≠ chr ' ' ∧ Printable q := by
  unfold isQuote quote
  by_cases hs : flags.squote = true
  · rw [if_pos hs]
    exact ⟨_, rfl, by decide, by decide, by decide⟩
  · rw [if_neg hs, if_pos (hq.resolve_left hs)]
    exact ⟨_, rfl, by decide, by decide, by decide⟩

theorem dropWhile_replicate (n : Nat) {q : UInt8} (hq : q ≠ chr ' ') (s : Text) :
    (List.replicate n (chr ' ') ++ q :: s).dropWhile (· = chr ' ') = q :: s := by
  induction n with
  | zero => simp [hq]
  | succ n ih => simpa [List.replicate_succ] using ih

/-- **What is printed between quotes is read back**: the string, or that it is a null pointer, whatever
stands behind it, up to the blanks it is filled up with. -/
theorem fmtstr_read_back (value : Option Text) (flags : Flags)
    (hq : flags.squote = true ∨ flags.dquote = true) (min max : Int) (s : Text) :
    ∃ n, readString flags (fmtstr value flags min max ++ s) =
      some (value.map (·.take (max % 2 ^ 32).toNat), List.replicate n (chr ' ') ++ s) := by
  have hquotes : flags.quotes = true := by
    unfold Flags.quotes
    obtain h | h := hq
    · simp [h]
    · simp [h]
  obtain ⟨q, hquote, hmark, hblank, -⟩ := quote_eq hq
  cases value with
  | none =>
    refine ⟨0, ?_⟩
    have hnull : fmtstr none flags min max = str "NULL" := if_pos (by simpa using hq)
    have hn : isQuote flags (chr 'N') = false := by
      unfold isQuote
      rw [hquote]
      unfold isQuote at hmark
      unfold quote at hquote
      split at hquote
      · cases hquote; decide
      · split at hquote
        · cases hquote; decide
        · cases hquote
    rw [hnull]
    have hd : (str "NULL" ++ s).dropWhile (· = chr ' ') = chr 'N' :: chr 'U' :: chr 'L' :: chr 'L' :: s := rfl
    unfold readString
    rw [hd]
    simp only [hn, Bool.false_eq_true, if_false]
    rfl
  | some value =>
    let text := value.take (max % 2 ^ 32).toNat
    let pad := (min - text.length).toNat
    let left := if flags.minus then 0 else pad
    let right := if flags.minus then pad else 0
    refine ⟨right, ?_⟩
    have hfmt : fmtstr (some value) flags min max ++ s = List.replicate left (chr ' ') ++
        q :: (fmtchars flags (lastcol flags text) 0 text ++
          q :: (List.replicate right (chr ' ') ++ s)) := by
      unfold fmtstr
      rw [hquote]
      change (if flags.minus then [] else List.replicate pad (chr ' ')) ++ [q] ++
        fmtchars flags (lastcol flags text) 0 text ++ [q] ++
        (if flags.minus then List.replicate pad (chr ' ') else []) ++ s = _
      cases hm : flags.minus with
      | true => simp [left, right, hm]
      | false => simp [left, right, hm]
    have hmarks : Marks flags (isQuote flags) := fun b hb => Or.inl hb
    have hsp := fmtchars_spells hquotes hmarks (lastcol flags text) 0 text
    rw [hfmt]
    unfold readString
    rw [dropWhile_replicate left hblank]
    simp only [hmark, if_true]
    rw [field_of_spells hsp hmark]
    · rfl
    · have := hsp.length_le
      simp only [List.length_append, List.length_cons]
      omega

theorem fmtstr_read_back_mark : ∃ n,
    readString { Flags.none with dquote := true }
        (fmtstr (some (str "a\" \n")) { Flags.none with dquote := true } 9 (-1) ++ str "\" b") =
      some (some (str "a\" \n"), List.replicate n (chr ' ') ++ str "\" b") := by
  have h := fmtstr_read_back (some (str "a\" \n")) { Flags.none with dquote := true } (Or.inr rfl) 9
    (-1) (str "\" b")
  exact h

theorem fmtstr_printable {value : Option Text} {flags : Flags} (hq : flags.quotes = true)
    {min max : Int} {b : UInt8} (hb : b ∈ fmtstr value flags min max) : Printable b := by
  have hblank : ∀ n, b ∈ List.replicate n (chr ' ') → Printable b := by
    intro n h
    rw [List.eq_of_mem_replicate h]
    decide
  have hquote : b ∈ quote flags → Printable b := by
    intro h
    unfold quote at h
    split at h
    · rw [List.mem_singleton.mp h]; decide
    · split at h
      · rw [List.mem_singleton.mp h]; decide
      · cases h
  cases value with
  | none =>
    unfold fmtstr at hb
    dsimp only at hb
    have hnull : ∀ b ∈ str "NULL", Printable b := by decide +kernel
    have hparents : ∀ b ∈ str "(null)", Printable b := by decide +kernel
    split at hb
    · exact hnull b hb
    · exact hparents b hb
  | some value =>
    simp only [fmtstr, List.mem_append] at hb
    obtain (((hb | hb) | hb) | hb) | hb := hb
    · split at hb
      · cases hb
      · exact hblank _ hb
    · exact hquote hb
    · exact fmtchars_printable hq hb
    · exact hquote hb
    · split at hb
      · exact hblank _ hb
      · cases hb

/-! ## A whole format -/

theorem mem_convert {ctab : Text} {base places u : Nat} {b : UInt8} (hbase : 0 < base)
    (hb : b ∈ convert ctab base places u) : ∃ i < base, b = ctab.getD i 0 := by
  induction places generalizing u with
  | zero => cases hb
  | succ places ih =>
    unfold convert at hb
    rw [List.mem_append, List.mem_singleton] at hb
    obtain hb | hb := hb
    · split at hb
      · cases hb
      · exact ih hb
    · exact ⟨u % base, Nat.mod_lt _ hbase, hb⟩

theorem fmtint_printable {value : BitVec 64} {base : Nat} {min max : Int} {flags : Flags}
    (hbase : 0 < base) (hle : base ≤ 16) {b : UInt8} (hb : b ∈ fmtint value base min max flags) :
    Printable b := by
  have hblank : ∀ n, b ∈ List.replicate n (chr ' ') → Printable b := by
    intro n h
    rw [List.eq_of_mem_replicate h]
    decide
  have hsign : ∀ b ∈ signvalue value flags, Printable b := by
    unfold signvalue
    split
    · decide +kernel
    · split
      · decide +kernel
      · split
        · decide +kernel
        · split
          · decide +kernel
          · decide +kernel
  simp only [fmtint, List.mem_append] at hb
  obtain ((((hb | hb) | hb) | hb) | hb) | hb := hb
  · split at hb
    · cases hb
    · exact hblank _ hb
  · exact hsign b hb
  · split at hb
    · have hx : ∀ b ∈ str "0x", Printable b := by decide +kernel
      exact hx b hb
    · cases hb
  · rw [List.eq_of_mem_replicate hb]
    decide
  · obtain ⟨i, hi, rfl⟩ := mem_convert hbase hb
    have hlow : ∀ i < 16, Printable ((str "0123456789abcdef").getD i 0) := by decide
    have hup : ∀ i < 16, Printable ((str "0123456789ABCDEF").getD i 0) := by decide
    unfold ctab
    split
    · exact hup i (by omega)
    · exact hlow i (by omega)
  · split at hb
    · exact hblank _ hb
    · cases hb

/-- The text that a conversion has of its own is printable, and its strings are quoted. -/
structure Spec.Guarded (spec : Spec) : Prop where
  quoted : spec.conv = .s ∨ spec.conv = .m → spec.flags.quotes = true
  noChar : spec.conv ≠ .c
  texts : ∀ b ∈ spec.arr.arpr ++ spec.arr.arsf ++ spec.arr.arepr ++ spec.arr.aresf ++ spec.arr.aresp,
    Printable b

instance instDecidableGuarded (spec : Spec) : Decidable spec.Guarded :=
  decidable_of_iff ((spec.conv = .s ∨ spec.conv = .m → spec.flags.quotes = true) ∧ spec.conv ≠ .c ∧
    (spec.arr.arpr ++ spec.arr.arsf ++ spec.arr.arepr ++ spec.arr.aresf ++ spec.arr.aresp).all
      (fun b => decide (Printable b)) = true)
    ⟨fun h => ⟨h.1, h.2.1, by simpa only [List.all_eq_true, decide_eq_true_eq] using h.2.2⟩,
      fun h => ⟨h.quoted, h.noChar, by simpa only [List.all_eq_true, decide_eq_true_eq] using h.texts⟩⟩

def Piece.Guarded : Piece → Prop
  | .lit _ => True
  | .conv spec => spec.Guarded

instance instDecidablePieceGuarded : (p : Piece) → Decidable p.Guarded
  | .lit _ => inferInstanceAs (Decidable True)
  | .conv spec => inferInstanceAs (Decidable spec.Guarded)

/-- The text between the conversions. -/
def literals (ps : List Piece) : Text := ps.filterMap fun
  | .lit ch => some ch
  | .conv _ => none

theorem printArray_printable {spec : Spec} (hg : spec.Guarded) {items : List Text}
    (hi : ∀ item ∈ items, ∀ b ∈ item, Printable b) {b : UInt8} (hb : b ∈ printArray spec items) :
    Printable b := by
  have htext := hg.texts
  simp only [List.mem_append] at htext
  simp only [printArray, List.mem_append] at hb
  obtain ((hb | hb) | hb) | hb := hb
  · split at hb
    · have hcolon : ∀ b ∈ str ": ", Printable b := by decide +kernel
      rw [List.mem_append] at hb
      obtain hb | hb := hb
      · exact fmtint_printable (by decide) (by decide) hb
      · exact hcolon b hb
    · cases hb
  · exact htext b (by simp [hb])
  · have hjoin : ∀ ls : List Text, (∀ l ∈ ls, ∀ b ∈ l, Printable b) →
        b ∈ spec.arr.aresp.intercalate ls → Printable b := by
      intro ls hls h
      induction ls with
      | nil => cases h
      | cons l ls ih =>
        cases ls with
        | nil => exact hls l (by simp) b (by simpa using h)
        | cons l' ls =>
          rw [List.intercalate_cons_cons, List.mem_append, List.mem_append] at h
          obtain (h | h) | h := h
          · exact hls l (by simp) b h
          · exact htext b (by simp [h])
          · exact ih (fun l hl => hls l (List.mem_cons_of_mem _ hl)) h
    refine hjoin _ (fun l hl c hc => ?_) hb
    obtain ⟨item, hitem, rfl⟩ := List.mem_map.mp hl
    simp only [List.mem_append] at hc
    obtain (hc | hc) | hc := hc
    · exact htext c (by simp [hc])
    · exact hi item hitem c hc
    · exact htext c (by simp [hc])
  · exact htext b (by simp [hb])

theorem printElements_printable {α : Type} {spec : Spec} (hg : spec.Guarded) {stop : α → Bool}
    {item : α → Text} (hi : ∀ a, ∀ b ∈ item a, Printable b) {len : Int} {val : Option (List α)}
    {out : Text} (h : printElements spec stop item len val = some out) :
    ∀ b ∈ out, Printable b := by
  cases val with
  | none =>
    obtain rfl := Option.some.inj h
    unfold printNull
    split
    · decide +kernel
    · decide +kernel
  | some l =>
    obtain ⟨l', -, rfl⟩ := Option.map_eq_some_iff.mp h
    intro b hb
    refine printArray_printable hg (fun t ht => ?_) hb
    obtain ⟨a, -, rfl⟩ := List.mem_map.mp ht
    exact hi a

theorem printArrayOf_printable {spec : Spec} (hg : spec.Guarded) {flags : Flags} {radix : Nat}
    (h0 : 0 < radix) (h16 : radix ≤ 16) {min max len : Int} {arg : Arg} {out : Text}
    (h : printArrayOf spec flags radix min max len arg = some out) : ∀ b ∈ out, Printable b := by
  have hitem : ∀ v : BitVec 64, ∀ b ∈ fmtint v radix min max flags, Printable b :=
    fun v b hb => fmtint_printable h0 h16 hb
  cases arg with
  | bytes val =>
    simp only [printArrayOf] at h
    split at h
    · exact printElements_printable hg (fun v => hitem _) h
    · cases h
  | shorts val =>
    simp only [printArrayOf] at h
    split at h
    · exact printElements_printable hg (fun v => hitem _) h
    · cases h
  | ints val =>
    simp only [printArrayOf] at h
    split at h
    · exact printElements_printable hg (fun v => hitem _) h
    · cases h
  | longs val =>
    simp only [printArrayOf] at h
    split at h
    · exact printElements_printable hg (fun v => hitem _) h
    · cases h
  | _ => cases h

theorem printInt_printable {spec : Spec} (hg : spec.Guarded) {flags : Flags} {radix : Nat}
    (h0 : 0 < radix) (h16 : radix ≤ 16) {min max len : Int} {arg : Arg} {out : Text}
    (h : printInt spec flags radix min max len arg = some out) : ∀ b ∈ out, Printable b := by
  unfold printInt at h
  split at h
  · exact printArrayOf_printable hg h0 h16 h
  · split at h
    · obtain rfl := Option.some.inj h
      exact fun b hb => fmtint_printable h0 h16 hb
    · cases h
    · obtain rfl := Option.some.inj h
      exact fun b hb => fmtint_printable h0 h16 hb
    · cases h

theorem printStr_printable {spec : Spec} (hg : spec.Guarded) (hq : spec.flags.quotes = true)
    {min max len : Int} {arg : Arg} {out : Text} (h : printStr spec min max len arg = some out) :
    ∀ b ∈ out, Printable b := by
  cases arg with
  | str val =>
    simp only [printStr] at h
    split at h
    · cases h
    · obtain rfl := Option.some.inj h
      exact fun b hb => fmtstr_printable hq hb
  | strs val =>
    simp only [printStr] at h
    split at h
    · exact printElements_printable hg (fun v b hb => fmtstr_printable hq hb) h
    · cases h
  | _ => cases h

/-- A conversion that is guarded prints nothing but what is printable. -/
theorem printConv_printable {error : Text} {spec : Spec} (hg : spec.Guarded) {min max len : Int}
    {args args' : List Arg} {out : Text}
    (h : printConv error spec min max len args = some (out, args')) : ∀ b ∈ out, Printable b := by
  have harg : ∀ f : Arg → Option Text, (∀ arg out, f arg = some out → ∀ b ∈ out, Printable b) →
      ∀ arg args, (f arg).map (·, args) = some (out, args') → ∀ b ∈ out, Printable b := by
    intro f hf arg args he
    obtain ⟨x, hx, hxe⟩ := Option.map_eq_some_iff.mp he
    cases hxe
    exact hf arg _ hx
  unfold printConv at h
  split at h
  · cases h
    decide +kernel
  · rename_i hc
    cases h
    exact fun b hb => fmtstr_printable (hg.quoted (Or.inr hc)) hb
  · cases h
    nofun
  · rename_i hc
    exact absurd hc hg.noChar
  · rename_i hc
    cases args with
    | nil => cases h
    | cons arg args =>
      exact harg _ (fun _ _ hx => printStr_printable hg (hg.quoted (Or.inl hc)) hx) arg args h
  · cases args with
    | nil => cases h
    | cons arg args =>
      exact harg _ (fun _ _ hx => printInt_printable hg (by decide) (by decide) hx) arg args h
  · cases args with
    | nil => cases h
    | cons arg args =>
      exact harg _ (fun _ _ hx => printInt_printable hg (by decide) (by decide) hx) arg args h
  · cases args with
    | nil => cases h
    | cons arg args =>
      exact harg _ (fun _ _ hx => printInt_printable hg (by decide) (by decide) hx) arg args h
  · cases args with
    | nil => cases h
    | cons arg args =>
      exact harg _ (fun _ _ hx => printInt_printable hg (by decide) (by decide) hx) arg args h
  · split at h
    · cases h
      exact fun b hb => fmtint_printable (by decide) (by decide) hb
    · cases h

theorem printPieces_unprintable {error : Text} {ps : List Piece} (hg : ∀ p ∈ ps, p.Guarded)
    {args : List Arg} {out : Text} (h : printPieces error ps args = some out) :
    out.filter (¬ Printable ·) = (literals ps).filter (¬ Printable ·) := by
  induction ps generalizing args out with
  | nil =>
    obtain rfl := Option.some.inj h
    rfl
  | cons p ps ih =>
    have hps : ∀ p ∈ ps, p.Guarded := fun q hq => hg q (List.mem_cons_of_mem _ hq)
    cases p with
    | lit ch =>
      obtain ⟨rest, hrest, rfl⟩ := Option.map_eq_some_iff.mp h
      have hlit : literals (.lit ch :: ps) = ch :: literals ps := rfl
      rw [hlit, List.filter_cons, List.filter_cons, ih hps hrest]
    | conv spec =>
      have hlit : literals (.conv spec :: ps) = literals ps := rfl
      simp only [printPieces, Option.bind_eq_bind, Option.bind_eq_some_iff, Prod.exists] at h
      obtain ⟨min, args1, -, max, args2, -, len, args3, -, text, args4, hconv, rest, hrest, he⟩ := h
      obtain rfl := Option.some.inj he
      have hnone : text.filter (¬ Printable ·) = [] := by
        rw [List.filter_eq_nil_iff]
        intro b hb
        simpa using printConv_printable (hg _ List.mem_cons_self) hconv b hb
      rw [List.filter_append, hnone, List.nil_append, hlit]
      exact ih hps hrest

/-- **Strings that are quoted print no control character**: the unprintable characters of the output are
those of the format, in its order, whatever the strings are. -/
theorem doPrint_unprintable {error fmt : Text} (hg : ∀ p ∈ parse fmt, p.Guarded) {args : List Arg}
    {out : Text} (h : doPrint error fmt args = some out) :
    out.filter (¬ Printable ·) = (literals (parse fmt)).filter (¬ Printable ·) :=
  printPieces_unprintable hg h

end Kdm.Printf
