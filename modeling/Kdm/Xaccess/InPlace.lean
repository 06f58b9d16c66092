import Kdm.Xaccess.Words
import Mathlib.Data.List.TakeDrop

/-!
# Cutting words in place

`readWord` (`kdm_config.c`) on the memory: the words are compacted in the buffer that they are read
from, and their terminators are written there.  A store past the read cursor, or past the one byte
behind the end of the file, fails; so does a read at the end of the file.

* `wordLoop` — the loop of the source with its four labels.
* `File.Ok`, `File.rest` — the invariant of a buffer, and what is left to read of it.

Principal result: `readWordAt_spec`, which says that the calls neither fail nor differ from `readWord`
on what is left, up to a line end that has become a zero.
-/

namespace Kdm.Xaccess

open Ipc

/-! ## The code -/

/-- `File`, with indices for the pointers. -/
structure File where
  buf : Bytes
  cur : Nat
  eof : Nat
  deriving DecidableEq

/-- A file in memory; there is one byte more. -/
def load (bytes : Bytes) : File := ⟨bytes ++ [0], 0, bytes.length⟩

namespace File

def store (f : File) (i : Nat) (c : UInt8) : Option File :=
  if i ≤ f.cur ∧ i ≤ f.eof then some { f with buf := f.buf.set i c } else none

/-- Where a word begins, and its length. -/
abbrev Word : Type := Nat × Nat

/-- `retw` -/
def endWord (f : File) (wordBuffer wordp : Nat) : Option (Option Word × File) :=
  (f.store wordp 0).map fun f => (some (wordBuffer, wordp - wordBuffer), f)

/-- `doeow` -/
def endOrNone (f : File) (wordBuffer wordp : Nat) : Option (Option Word × File) :=
  if wordp = wordBuffer then some (none, f) else f.endWord wordBuffer wordp

/-- The next character and the file behind it. -/
def read (f : File) : Option (UInt8 × File) :=
  if f.cur < f.eof then f.buf[f.cur]?.map fun c => (c, { f with cur := f.cur + 1 }) else none

theorem read_spec {f f' : File} {c : UInt8} (h : f.read = some (c, f')) :
    f.cur < f.eof ∧ f.buf[f.cur]? = some c ∧ f' = { f with cur := f.cur + 1 } := by
  unfold read at h
  split at h
  · next hlt =>
    obtain ⟨c', hc, he⟩ := Option.map_eq_some_iff.mp h
    cases he
    exact ⟨hlt, hc, rfl⟩
  · cases h

theorem store_spec {f f' : File} {i : Nat} {c : UInt8} (h : f.store i c = some f') :
    i ≤ f.cur ∧ i ≤ f.eof ∧ f' = { f with buf := f.buf.set i c } := by
  unfold store at h
  split at h
  · next hi =>
    cases h
    exact ⟨hi.1, hi.2, rfl⟩
  · cases h

end File

/-- The loop, with the state of the word that is read: `quoted`, or inside a comment. -/
def wordLoop (EOFatEOL : Bool) (wordBuffer wordp : Nat) (mode : Mode) (f : File) :
    Option (Option File.Word × File) :=
  if f.cur = f.eof then f.endOrNone wordBuffer wordp
  else
    match _h : f.read with
    | none => none
    | some (c, f') =>
      if mode = .comment ∧ c ≠ 10 then wordLoop EOFatEOL wordBuffer wordp .comment f'
      else if c = 35 ∧ mode = .plain then wordLoop EOFatEOL wordBuffer wordp .comment f'
      else if c = 0 ∨ c = 10 then
        -- `file->cur--` leaves the line end for the next call
        if EOFatEOL = true ∧ mode ≠ .quoted then f.endOrNone wordBuffer wordp
        else if wordp ≠ wordBuffer then f.endWord wordBuffer wordp
        else wordLoop EOFatEOL f'.cur f'.cur .plain f'
      else if c = 32 ∨ c = 9 then
        if wordp ≠ wordBuffer then f'.endWord wordBuffer wordp
        else wordLoop EOFatEOL f'.cur f'.cur .plain f'
      else if c = 92 ∧ mode ≠ .quoted then wordLoop EOFatEOL wordBuffer wordp .quoted f'
      else
        match _h' : f'.store wordp c with
        | none => none
        | some f'' => wordLoop EOFatEOL wordBuffer (wordp + 1) .plain f''
termination_by f.eof - f.cur
decreasing_by
  all_goals
    obtain ⟨hlt, -, rfl⟩ := File.read_spec _h
    first
      | (obtain ⟨-, -, rfl⟩ := File.store_spec _h'
         show f.eof - (f.cur + 1) < f.eof - f.cur
         omega)
      | (show f.eof - (f.cur + 1) < f.eof - f.cur
         omega)

/-- `readWord`. -/
def readWordAt (EOFatEOL : Bool) (f : File) : Option (Option File.Word × File) :=
  wordLoop EOFatEOL f.cur f.cur .plain f

/-! ## The buffer -/

namespace File

/-- There is a byte behind the end of the file, and the cursor has not passed the end. -/
structure Ok (f : File) : Prop where
  length : f.buf.length = f.eof + 1
  cur : f.cur ≤ f.eof

theorem ok_load (bytes : Bytes) : (load bytes).Ok := by
  constructor
  · simp [load]
  · exact Nat.zero_le _

/-- What is left to read. -/
def rest (f : File) : Bytes := (f.buf.take f.eof).drop f.cur

theorem rest_load (bytes : Bytes) : (load bytes).rest = bytes := by
  simp [rest, load]

/-- The characters of a word. -/
def text (f : File) (w : Word) : Bytes := (f.buf.drop w.1).take w.2

variable {f f' : File}

theorem rest_end (h : f.cur = f.eof) : f.rest = [] := by
  unfold rest
  rw [h]
  exact List.drop_eq_nil_of_le (List.length_take_le _ _)

theorem Ok.read (hok : f.Ok) (h : f.cur ≠ f.eof) :
    ∃ c, f.read = some (c, { f with cur := f.cur + 1 }) ∧
      ({ f with cur := f.cur + 1 } : File).Ok ∧
      f.rest = c :: ({ f with cur := f.cur + 1 } : File).rest := by
  have hlt : f.cur < f.eof := lt_of_le_of_ne hok.cur h
  have hlen : f.cur < f.buf.length := by
    rw [hok.length]
    omega
  refine ⟨f.buf[f.cur], ?_, ⟨hok.length, hlt⟩, ?_⟩
  · unfold File.read
    rw [if_pos hlt, List.getElem?_eq_getElem hlen]
    rfl
  · have hlen' : f.cur < (f.buf.take f.eof).length := by
      rw [List.length_take, hok.length]
      omega
    unfold rest
    rw [List.drop_eq_getElem_cons hlen', List.getElem_take]

theorem Ok.store (hok : f.Ok) {i : Nat} (hi : i ≤ f.cur) (c : UInt8) :
    f.store i c = some { f with buf := f.buf.set i c } ∧
      ({ f with buf := f.buf.set i c } : File).Ok := by
  refine ⟨if_pos ⟨hi, Nat.le_trans hi hok.cur⟩, ?_, hok.cur⟩
  rw [List.length_set]
  exact hok.length

/-- A store before the cursor does not change what is left. -/
theorem rest_set {i : Nat} (hi : i < f.cur) (c : UInt8) :
    ({ f with buf := f.buf.set i c } : File).rest = f.rest := by
  unfold rest
  dsimp only
  rw [List.take_set, List.drop_set, if_pos hi]

/-- A store at the cursor changes the next character. -/
theorem rest_set_cur (c x : UInt8) {t : Bytes} (h : f.rest = x :: t) :
    ({ f with buf := f.buf.set f.cur c } : File).rest = c :: t := by
  unfold rest at h ⊢
  dsimp only
  rw [List.take_set, List.drop_set, if_neg (Nat.lt_irrefl _), h, Nat.sub_self]
  rfl

/-- A store behind a word does not change it. -/
theorem text_set {b n i : Nat} (hi : b + n ≤ i) (c : UInt8) :
    ({ f with buf := f.buf.set i c } : File).text (b, n) = f.text (b, n) := by
  unfold text
  dsimp only
  rw [List.drop_set]
  split
  · rfl
  · rw [List.take_set_of_le (by omega)]

/-- A character is appended to a word. -/
theorem text_push {b i : Nat} (hb : b ≤ i) (hi : i < f.buf.length) (c : UInt8) :
    ({ f with buf := f.buf.set i c } : File).text (b, i + 1 - b) = f.text (b, i - b) ++ [c] := by
  have hn : i - b < (f.buf.drop b).length := by
    rw [List.length_drop]
    omega
  unfold text
  dsimp only
  rw [List.drop_set, if_neg (by omega), Nat.succ_sub hb, List.take_add_one, List.take_set_of_le (le_refl _),
    List.getElem?_set_self hn]
  rfl

theorem text_length {b n : Nat} (h : b + n ≤ f.buf.length) : (f.text (b, n)).length = n := by
  unfold text
  rw [List.length_take, List.length_drop]
  omega

theorem rest_set_nil (i : Nat) (c : UInt8) (h : f.rest = []) :
    ({ f with buf := f.buf.set i c } : File).rest = [] := by
  have hlen := congrArg List.length h
  unfold rest at hlen ⊢
  rw [List.length_drop, List.length_take] at hlen
  refine List.drop_eq_nil_of_le ?_
  rw [List.length_take, List.length_set]
  exact Nat.sub_eq_zero_iff_le.mp hlen

end File

/-! ## The words that are delivered -/

/-- A line end is a newline or a zero. -/
def LineEnd (c : UInt8) : Prop := c = 0 ∨ c = 10

/-- The same is left, but for a line end that has become a zero. -/
def SameRest (rest rest' : Bytes) : Prop :=
  rest = rest' ∨ ∃ c t, LineEnd c ∧ rest = 0 :: t ∧ rest' = c :: t

/-- The outcome of a call on the memory is that of `readWord` on what is left. -/
structure Delivers (x : Option CStr × Bytes) (out : Option File.Word × File) : Prop where
  ok : out.2.Ok
  word : out.1.map out.2.text = x.1.map (·.1)
  rest : SameRest out.2.rest x.2

/-- A word in the buffer, between the two pointers and before the cursor. -/
structure Begun (f : File) (wordBuffer wordp : Nat) (w : CStr) : Prop where
  ok : f.Ok
  le : wordBuffer ≤ wordp
  cur : wordp ≤ f.cur
  text : w.1 = f.text (wordBuffer, wordp - wordBuffer)

namespace Begun

variable {f : File} {wordBuffer wordp : Nat} {w : CStr}

theorem eq_nil_iff (h : Begun f wordBuffer wordp w) : w.1 = [] ↔ wordp = wordBuffer := by
  have hlen : wordBuffer + (wordp - wordBuffer) ≤ f.buf.length := by
    rw [h.ok.length, Nat.add_sub_cancel' h.le]
    exact Nat.le_succ_of_le (Nat.le_trans h.cur h.ok.cur)
  have hn := File.text_length hlen
  rw [← h.text] at hn
  rw [← List.length_eq_zero_iff, hn, Nat.sub_eq_zero_iff_le]
  exact ⟨fun hle => Nat.le_antisymm hle h.le, fun he => le_of_eq he⟩

/-- The terminator may overwrite a line end, or the byte behind the end of the file. -/
theorem endWord (h : Begun f wordBuffer wordp w)
    (hrest : wordp = f.cur → f.rest = [] ∨ ∃ c t, LineEnd c ∧ f.rest = c :: t) :
    ∃ out, f.endWord wordBuffer wordp = some out ∧ Delivers (some w, f.rest) out := by
  obtain ⟨hstore, hok⟩ := h.ok.store h.cur 0
  refine ⟨_, by rw [File.endWord, hstore]; rfl, hok, ?_, ?_⟩
  · have hle : wordBuffer + (wordp - wordBuffer) ≤ wordp := Nat.le_of_eq (Nat.add_sub_cancel' h.le)
    show some (File.text _ (wordBuffer, wordp - wordBuffer)) = some w.1
    rw [File.text_set hle, h.text]
  · show SameRest (File.rest { f with buf := f.buf.set wordp 0 }) f.rest
    by_cases hlt : wordp < f.cur
    · exact .inl (File.rest_set hlt 0)
    · obtain rfl : wordp = f.cur := Nat.le_antisymm h.cur (not_lt.mp hlt)
      rcases hrest rfl with hnil | ⟨c, t, hc, ht⟩
      · rw [File.rest_set_nil _ _ hnil, hnil]
        exact .inl rfl
      · rw [File.rest_set_cur 0 c ht, ht]
        exact .inr ⟨c, t, hc, rfl, rfl⟩

theorem endOrNone (h : Begun f wordBuffer wordp w)
    (hrest : wordp = f.cur → f.rest = [] ∨ ∃ c t, LineEnd c ∧ f.rest = c :: t) :
    ∃ out, f.endOrNone wordBuffer wordp = some out ∧ Delivers (endOfWord w, f.rest) out := by
  unfold File.endOrNone endOfWord
  by_cases he : wordp = wordBuffer
  · rw [if_pos he, if_pos (h.eq_nil_iff.mpr he)]
    exact ⟨_, rfl, h.ok, rfl, .inl rfl⟩
  · rw [if_neg he, if_neg fun hn => he (h.eq_nil_iff.mp hn)]
    exact h.endWord hrest

/-- One character more is read. -/
theorem read (h : Begun f wordBuffer wordp w) (hne : f.cur ≠ f.eof) :
    ∃ c f', f.read = some (c, f') ∧ f' = { f with cur := f.cur + 1 } ∧ f.rest = c :: f'.rest ∧
      Begun f' wordBuffer wordp w ∧ wordp < f'.cur := by
  obtain ⟨c, hr, hok, hrest⟩ := h.ok.read hne
  exact ⟨c, _, hr, rfl, hrest, ⟨hok, h.le, Nat.le_succ_of_le h.cur, h.text⟩, Nat.lt_succ_of_le h.cur⟩

/-- A word is begun at the cursor. -/
theorem start {f : File} (hok : f.Ok) : Begun f f.cur f.cur emptyWord := by
  refine ⟨hok, le_refl _, le_refl _, ?_⟩
  rw [Nat.sub_self]
  rfl

/-- The character is put behind the word. -/
theorem push (h : Begun f wordBuffer wordp w) (hlt : wordp < f.cur) {c : UInt8} (hc : c ≠ 0) :
    ∃ f', f.store wordp c = some f' ∧ Begun f' wordBuffer (wordp + 1) (CStr.push w c hc) ∧
      f'.rest = f.rest := by
  obtain ⟨hstore, hok⟩ := h.ok.store h.cur c
  refine ⟨_, hstore, ⟨hok, Nat.le_succ_of_le h.le, hlt, ?_⟩, File.rest_set hlt c⟩
  have hlen : wordp < f.buf.length := by
    rw [h.ok.length]
    exact Nat.lt_succ_of_le (Nat.le_trans h.cur h.ok.cur)
  rw [File.text_push h.le hlen, ← h.text]
  rfl

end Begun

/-- **The loop on the memory delivers what the reader of lists does.** -/
theorem wordLoop_spec (eol : Bool) {wordBuffer wordp : Nat} (mode : Mode) {f : File} {w : CStr}
    (h : Begun f wordBuffer wordp w) :
    ∃ out, wordLoop eol wordBuffer wordp mode f = some out ∧
      Delivers (readWordFrom eol w mode f.rest) out := by
  -- the induction is on what is left
  induction hn : f.rest.length using Nat.strong_induction_on
    generalizing wordBuffer wordp mode f w with
  | _ n ih =>
    rw [wordLoop]
    by_cases heof : f.cur = f.eof
    · have hnil := File.rest_end heof
      rw [if_pos heof, hnil, readWordFrom]
      rw [← hnil]
      exact h.endOrNone fun _ => .inl hnil
    · rw [if_neg heof]
      obtain ⟨c, f', hread, hf', hrest, hb, hlt⟩ := h.read heof
      have hsmall : f'.rest.length < n := by
        rw [← hn, hrest]
        exact Nat.lt_succ_self _
      have hstart : Begun f' f'.cur f'.cur emptyWord := .start hb.ok
      split
      · next hnone =>
        rw [hread] at hnone
        cases hnone
      · next c' f'' hsome =>
        cases hread.symm.trans hsome
        rw [hrest, readWordFrom]
        by_cases h1 : mode = .comment ∧ c ≠ 10
        · rw [if_pos h1, if_pos h1]
          exact ih _ hsmall .comment hb rfl
        rw [if_neg h1, if_neg h1]
        by_cases h2 : c = 35 ∧ mode = .plain
        · rw [if_pos h2, if_pos h2]
          exact ih _ hsmall .comment hb rfl
        rw [if_neg h2, if_neg h2]
        by_cases h3 : c = 0 ∨ c = 10
        · rw [if_pos h3, dif_pos h3]
          have hend : wordp = f.cur → f.rest = [] ∨ ∃ c t, LineEnd c ∧ f.rest = c :: t :=
            fun _ => .inr ⟨c, f'.rest, h3, hrest⟩
          by_cases h4 : eol = true ∧ mode ≠ .quoted
          · rw [if_pos h4, if_pos h4, ← hrest]
            exact h.endOrNone hend
          rw [if_neg h4, if_neg h4]
          by_cases h5 : wordp = wordBuffer
          · have hw : ¬ w.1 ≠ [] := not_not_intro (h.eq_nil_iff.mpr h5)
            rw [if_neg (not_not_intro h5), if_neg hw]
            exact ih _ hsmall .plain hstart rfl
          · have hw : w.1 ≠ [] := fun he => h5 (h.eq_nil_iff.mp he)
            rw [if_pos h5, if_pos hw, ← hrest]
            exact h.endWord hend
        rw [if_neg h3, dif_neg h3]
        by_cases h6 : c = 32 ∨ c = 9
        · rw [if_pos h6, if_pos h6]
          by_cases h5 : wordp = wordBuffer
          · have hw : ¬ w.1 ≠ [] := not_not_intro (h.eq_nil_iff.mpr h5)
            rw [if_neg (not_not_intro h5), if_neg hw]
            exact ih _ hsmall .plain hstart rfl
          · have hw : w.1 ≠ [] := fun he => h5 (h.eq_nil_iff.mp he)
            rw [if_pos h5, if_pos hw]
            exact hb.endWord fun he => absurd he (Nat.ne_of_lt hlt)
        rw [if_neg h6, if_neg h6]
        by_cases h7 : c = 92 ∧ mode ≠ .quoted
        · rw [if_pos h7, if_pos h7]
          exact ih _ hsmall .quoted hb rfl
        rw [if_neg h7, if_neg h7]
        obtain ⟨f₂, hstore, hb₂, hrest₂⟩ := hb.push hlt fun h0 => h3 (.inl h0)
        split
        · next hnone =>
          rw [hstore] at hnone
          cases hnone
        · next f₃ hsome =>
          cases hstore.symm.trans hsome
          rw [← hrest₂]
          exact ih _ (hrest₂ ▸ hsmall) .plain hb₂ rfl

/-- **A call never fails, and it delivers what `readWord` does.** -/
theorem readWordAt_spec (eol : Bool) {f : File} (hok : f.Ok) :
    ∃ out, readWordAt eol f = some out ∧ Delivers (readWord eol f.rest) out :=
  wordLoop_spec eol .plain (.start hok)

end Kdm.Xaccess
