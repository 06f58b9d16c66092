import Kdm.Ipc.Faithful

/-!
# The words of the Xaccess file

`readWord` (`kdm_config.c`) cuts the file into words in place.  The terminator of a word may
overwrite the end of the line, which is why a zero counts as one.  A line is the first word that
is read without regard to line ends, and the words up to the end of its line.
-/

namespace Kdm.Xaccess

open Ipc

/-- The state of the reader inside a word: behind a backslash, or in a comment. -/
inductive Mode where
  | plain
  | quoted
  | comment
  deriving DecidableEq, Repr

def emptyWord : CStr := ⟨[], List.not_mem_nil⟩

def CStr.push (w : CStr) (c : UInt8) (h : c ≠ 0) : CStr :=
  ⟨w.1 ++ [c], by
    intro hm
    rcases List.mem_append.mp hm with hm | hm
    · exact w.2 hm
    · exact h (List.mem_singleton.mp hm).symm⟩

/-- The end of the file or the line: nothing unless a word was begun. -/
def endOfWord (w : CStr) : Option CStr := if w.1 = [] then none else some w

/-- The rest of a word of which `w` was read, and what is left of the file. -/
def readWordFrom (EOFatEOL : Bool) : CStr → Mode → Bytes → Option CStr × Bytes
  | w, _, [] => (endOfWord w, [])
  | w, mode, c :: rest =>
    if mode = .comment ∧ c ≠ 10 then readWordFrom EOFatEOL w .comment rest
    else if c = 35 ∧ mode = .plain then readWordFrom EOFatEOL w .comment rest
    else if h : c = 0 ∨ c = 10 then
      -- a comment ends here like a line
      if EOFatEOL = true ∧ mode ≠ .quoted then (endOfWord w, c :: rest)
      else if w.1 ≠ [] then (some w, c :: rest)
      else readWordFrom EOFatEOL emptyWord .plain rest
    else if c = 32 ∨ c = 9 then
      if w.1 ≠ [] then (some w, rest) else readWordFrom EOFatEOL emptyWord .plain rest
    else if c = 92 ∧ mode ≠ .quoted then readWordFrom EOFatEOL w .quoted rest
    else readWordFrom EOFatEOL (CStr.push w c fun h0 => h (.inl h0)) .plain rest

def readWord (EOFatEOL : Bool) (file : Bytes) : Option CStr × Bytes :=
  readWordFrom EOFatEOL emptyWord .plain file

/-- A word is made of characters of the file. -/
theorem readWordFrom_length (eol : Bool) (file : Bytes) :
    ∀ (w : CStr) (mode : Mode), (readWordFrom eol w mode file).2.length +
        (((readWordFrom eol w mode file).1.map fun x => x.1.length).getD 0) ≤
      file.length + w.1.length ∧
      ∀ x, (readWordFrom eol w mode file).1 = some x → x.1 ≠ [] := by
  have hend (w : CStr) (n : Nat) : n + (((endOfWord w).map fun x => x.1.length).getD 0) ≤
      n + w.1.length ∧ ∀ x, endOfWord w = some x → x.1 ≠ [] := by
    unfold endOfWord
    split
    · exact ⟨Nat.add_le_add_left (Nat.zero_le _) n, nofun⟩
    · refine ⟨Nat.le_refl _, ?_⟩
      rintro x ⟨⟩
      assumption
  induction file with
  | nil =>
    intro w mode
    exact hend w 0
  | cons c rest ih =>
    intro w mode
    have hnew := ih emptyWord .plain
    have hskip {w' : CStr} {mode' : Mode} (hw : w'.1.length ≤ w.1.length + 1) :
        (readWordFrom eol w' mode' rest).2.length +
            (((readWordFrom eol w' mode' rest).1.map fun x => x.1.length).getD 0) ≤
          (c :: rest).length + w.1.length ∧
          ∀ x, (readWordFrom eol w' mode' rest).1 = some x → x.1 ≠ [] := by
      have hw' := ih w' mode'
      refine ⟨?_, hw'.2⟩
      have hle := hw'.1
      rw [List.length_cons]
      omega
    unfold readWordFrom
    split
    · exact hskip (Nat.le_succ _)
    split
    · exact hskip (Nat.le_succ _)
    split
    · split
      · exact hend w _
      split
      · refine ⟨Nat.le_refl _, ?_⟩
        rintro x ⟨⟩
        assumption
      · exact hskip (Nat.zero_le _)
    split
    · split
      · refine ⟨?_, ?_⟩
        · show rest.length + w.1.length ≤ rest.length + 1 + w.1.length
          omega
        · rintro x ⟨⟩
          assumption
      · exact hskip (Nat.zero_le _)
    split
    · exact hskip (Nat.le_succ _)
    · exact hskip (by simp [CStr.push])

theorem readWord_some {eol : Bool} {file rest : Bytes} {w : CStr}
    (h : readWord eol file = (some w, rest)) : rest.length < file.length ∧ w.1 ≠ [] := by
  have hl := readWordFrom_length eol file emptyWord .plain
  rw [show readWordFrom eol emptyWord .plain file = (some w, rest) from h] at hl
  have hne := hl.2 w rfl
  have hpos := List.length_pos_iff.mpr hne
  have hle : rest.length + w.1.length ≤ file.length := hl.1
  exact ⟨by omega, hne⟩

theorem readWord_le (eol : Bool) (file : Bytes) : (readWord eol file).2.length ≤ file.length := by
  have hl := (readWordFrom_length eol file emptyWord .plain).1
  exact Nat.le_trans (Nat.le_add_right _ _) hl

/-- The words up to the end of the line. -/
def readWords (file : Bytes) : List CStr × Bytes :=
  match _h : readWord true file with
  | (none, rest) => ([], rest)
  | (some w, rest) =>
    let r := readWords rest
    (w :: r.1, r.2)
termination_by file.length
decreasing_by exact (readWord_some _h).1

theorem readWords_le (file : Bytes) : (readWords file).2.length ≤ file.length := by
  induction file using readWords.induct with
  | case1 file rest h =>
    rw [readWords]
    split
    · rename_i rest' h'
      cases h.symm.trans h'
      have hle := readWord_le true file
      rwa [h] at hle
    · rename_i h'
      cases h.symm.trans h'
  | case2 file w rest h ih =>
    rw [readWords]
    split
    · rename_i h'
      cases h.symm.trans h'
    · rename_i w' rest' h'
      cases h.symm.trans h'
      exact Nat.le_trans ih (Nat.le_of_lt (readWord_some h).1)

/-- The lines of the file that have a word. -/
def readLines (file : Bytes) : List (CStr × List CStr) :=
  match _h : readWord false file with
  | (none, _) => []
  | (some w, rest) => (w, (readWords rest).1) :: readLines (readWords rest).2
termination_by file.length
decreasing_by exact Nat.lt_of_le_of_lt (readWords_le rest) (readWord_some _h).1

/-- A file of one word. -/
theorem readLines_word {file : Bytes} {w : CStr} (h : readWord false file = (some w, [])) :
    readLines file = [(w, [])] := by
  have hnone : readWord true [] = (none, []) := rfl
  have hend : readWord false [] = (none, []) := rfl
  have hwords : readWords [] = ([], []) := by
    rw [readWords]
    split
    · rename_i h
      cases hnone.symm.trans h
      rfl
    · rename_i h
      cases hnone.symm.trans h
  have hlines : readLines [] = [] := by
    rw [readLines]
    split
    · rfl
    · rename_i h
      cases hend.symm.trans h
  rw [readLines]
  split
  · rename_i h'
    cases h.symm.trans h'
  · rename_i h'
    cases h.symm.trans h'
    rw [hwords, hlines]

/-! ## Words with a blank behind each -/

/-- The rest of a word behind which a blank stands. -/
theorem readWordFrom_blank (eol : Bool) (rest : Bytes) {x : CStr} {s : Bytes} :
    ∀ {w : CStr}, x.1 = w.1 ++ s → x.1 ≠ [] → (∀ c ∈ s, c ∉ ([9, 10, 32, 35, 92] : Bytes)) →
      readWordFrom eol w .plain (s ++ 32 :: rest) = (some x, rest) := by
  induction s with
  | nil =>
    intro w hx hne _
    have hw : w = x := Subtype.ext (by rw [hx, List.append_nil])
    rw [List.nil_append, readWordFrom, if_neg (by simp), if_neg (by simp), dif_neg (by simp),
      if_pos (.inl rfl), if_pos (hw ▸ hne), hw]
  | cons c s ih =>
    intro w hx hne hs
    obtain ⟨hc, hs⟩ := List.forall_mem_cons.mp hs
    simp only [List.mem_cons, List.not_mem_nil, or_false, not_or] at hc
    have h0 : c ≠ 0 := by
      rintro rfl
      exact x.2 (hx ▸ List.mem_append_right _ List.mem_cons_self)
    rw [List.cons_append, readWordFrom, if_neg (by simp), if_neg (by simp [hc]),
      dif_neg (by simp [hc, h0]), if_neg (by simp [hc]), if_neg (by simp [hc])]
    refine ih ?_ hne hs
    rw [hx]
    simp [CStr.push]

/-- A word without characters that have a meaning. -/
structure Plain (w : CStr) : Prop where
  ne : w.1 ≠ []
  chars : ∀ c ∈ w.1, c ∉ ([9, 10, 32, 35, 92] : Bytes)

theorem Plain.of_all {w : CStr} (hne : w.1 ≠ [])
    (hall : w.1.all (fun c => !([9, 10, 32, 35, 92] : Bytes).contains c) = true) : Plain w :=
  ⟨hne, fun c hc => by simpa using List.all_eq_true.mp hall c hc⟩

theorem readWord_blank (eol : Bool) {w : CStr} (hw : Plain w) (rest : Bytes) :
    readWord eol (w.1 ++ 32 :: rest) = (some w, rest) :=
  readWordFrom_blank eol rest rfl hw.ne hw.chars

/-- Words with a blank behind each. -/
def spaced (ws : List CStr) : Bytes := (ws.map fun w => w.1 ++ [32]).flatten

theorem spaced_cons (w : CStr) (ws : List CStr) (rest : Bytes) :
    spaced (w :: ws) ++ rest = w.1 ++ 32 :: (spaced ws ++ rest) := by
  simp [spaced]

theorem readWords_some {file rest : Bytes} {w : CStr} (h : readWord true file = (some w, rest)) :
    readWords file = (w :: (readWords rest).1, (readWords rest).2) := by
  rw [readWords]
  split
  · rename_i h'
    cases h.symm.trans h'
  · rename_i h'
    cases h.symm.trans h'
    rfl

theorem readWords_none {file rest : Bytes} (h : readWord true file = (none, rest)) :
    readWords file = ([], rest) := by
  rw [readWords]
  split
  · rename_i h'
    cases h.symm.trans h'
    rfl
  · rename_i h'
    cases h.symm.trans h'

theorem readLines_some {file rest : Bytes} {w : CStr} (h : readWord false file = (some w, rest)) :
    readLines file = (w, (readWords rest).1) :: readLines (readWords rest).2 := by
  rw [readLines]
  split
  · rename_i h'
    cases h.symm.trans h'
  · rename_i h'
    cases h.symm.trans h'
    rfl

theorem readWords_spaced {ws : List CStr} (hws : ∀ w ∈ ws, Plain w) {rest rest' : Bytes}
    (h : readWord true rest = (none, rest')) : readWords (spaced ws ++ rest) = (ws, rest') := by
  induction ws with
  | nil => exact readWords_none h
  | cons w ws ih =>
    obtain ⟨hw, hws⟩ := List.forall_mem_cons.mp hws
    have hread := readWord_blank true hw (spaced ws ++ rest)
    rw [spaced_cons, readWords_some hread, ih hws]

/-- A line of words, and what is behind the end of the line. -/
theorem readLines_spaced {w : CStr} {ws : List CStr} (hw : Plain w) (hws : ∀ w ∈ ws, Plain w)
    {rest rest' : Bytes} (h : readWord true rest = (none, rest')) :
    readLines (spaced (w :: ws) ++ rest) = (w, ws) :: readLines rest' := by
  have hread := readWord_blank false hw (spaced ws ++ rest)
  rw [spaced_cons, readLines_some hread, readWords_spaced hws h]

theorem readLines_newline (rest : Bytes) : readLines (10 :: rest) = readLines rest := by
  have hread : readWord false (10 :: rest) = readWord false rest := rfl
  cases h : readWord false rest with
  | mk w rest' =>
    cases w with
    | none =>
      have hnone (file : Bytes) (hf : readWord false file = (none, rest')) : readLines file = [] := by
        rw [readLines]
        split
        · rfl
        · rename_i h'
          cases hf.symm.trans h'
      rw [hnone _ (hread.trans h), hnone _ h]
    | some w => rw [readLines_some (hread.trans h), readLines_some h]

end Kdm.Xaccess
