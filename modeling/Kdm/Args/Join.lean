import Kdm.Args.Parse
import Mathlib.Algebra.Ring.Nat

/-!
# Migrated command lines

`genkdmconf` writes the command lines of the servers into `kdmrc` and reads them from there; the
config reader takes the backslashes of a value away once more, and the daemon splits what is left.

* `joinArgs`, `splitArgs` — of `genkdmconf.c`, for values that are not unescaped yet.
* `readValue` — the value of an entry as `readConfig` of `kdm_config.c` reads it.

Principal result: `migrate_ok`.
-/

namespace Kdm.Args

open Scanner

/-! ## `genkdmconf` -/

/-- `if (*++string != '\\') string--`. -/
def skipped (c : UInt8) : Ptr → Option (UInt8 × Ptr)
  | [] => none
  | d :: p => some (if d = BSLASH then (d, p) else (c, d :: p))

theorem skipped_le {c x : UInt8} {p q : Ptr} (h : skipped c p = some (x, q)) :
    q.length ≤ p.length := by
  cases p with
  | nil => cases h
  | cons d p =>
    rw [skipped] at h
    split at h
    · cases h
      exact Nat.le_succ _
    · cases h
      exact Nat.le_refl _

/-- Where a backslash leads the loops of `splitArgs`. -/
def splitJump : Option Quote → UInt8 → Ptr → Option (UInt8 × Ptr)
  | some .single, c, p => skipped c p
  | _, c, p => (skipped c p).bind fun r => (skipped r.1 r.2).bind fun r => escaped r.1 r.2

theorem splitJump_le {m : Option Quote} {c x : UInt8} {p q : Ptr}
    (h : splitJump m c p = some (x, q)) : q.length ≤ p.length := by
  unfold splitJump at h
  split at h
  · exact skipped_le h
  · obtain ⟨r, hr, h⟩ := Option.bind_eq_some_iff.mp h
    obtain ⟨r', hr', h⟩ := Option.bind_eq_some_iff.mp h
    exact Nat.le_trans (escaped_le h) (Nat.le_trans (skipped_le hr') (skipped_le hr))

/-- The loops of `splitArgs`. -/
def splitter : Scanner UInt8 where
  nul := 0
  bslash := BSLASH
  quote := quoteChar
  blank := isspace
  jump := splitJump
  jump_le := splitJump_le

/-- `splitArgs` of a C string. -/
def splitArgs (string : List UInt8) : Option (List (List UInt8)) := splitter.words (string ++ [0])

/-- `isspace(*s) || *s == '\''`. -/
def needsQuotes (c : UInt8) : Bool := isspace c || c == SQUOTE

/-- `slen` behind the first loop of `joinArgs`, from a character on. -/
def charLen (c : UInt8) : Nat :=
  1 + if needsQuotes c then 0 else if c = DQUOTE then 2 else if c = BSLASH then 3 else 0

def wordLen (s : List UInt8) : Nat := (s.map charLen).sum + if s.any needsQuotes then 2 else 0

def joinLen (argv : List (List UInt8)) : Nat := (argv.map fun s => wordLen s + 1).sum

/-- What the second loop of `joinArgs` stores for a character. -/
def storeChar (c : UInt8) : List UInt8 :=
  (if c = BSLASH then [BSLASH] else []) ++
    (if c = DQUOTE ∨ c = BSLASH then [BSLASH, BSLASH] else []) ++ [c]

def storeWord (s : List UInt8) : List UInt8 :=
  if s.any needsQuotes then DQUOTE :: (s.flatMap storeChar ++ [DQUOTE]) else s.flatMap storeChar

def storeWords : List (List UInt8) → List UInt8
  | [] => []
  | [s] => storeWord s
  | s :: argv => storeWord s ++ 32 :: storeWords argv

theorem storeWords_cons (s s' : List UInt8) (argv : List (List UInt8)) :
    storeWords (s :: s' :: argv) = storeWord s ++ 32 :: storeWords (s' :: argv) := rfl

/-- `joinArgs`; what does not fit into the memory for it, with its NUL, is an error. -/
def joinArgs (argv : List (List UInt8)) : Option (List UInt8) :=
  if argv = [] then some []
  else if (storeWords argv).length + 1 ≤ joinLen argv then some (storeWords argv) else none

/-! ## The config reader -/

def NEWLINE : UInt8 := 10

/-- The `switch` behind a backslash. -/
def unescapeChar (c : UInt8) : List UInt8 :=
  if c = 115 then [32]
  else if c = 116 then [9]
  else if c = 110 then [10]
  else if c = 114 then [13]
  else if c = BSLASH then [BSLASH]
  else [BSLASH, c]

/-- The loop over the value: `out` is what stands from `st` to `pt`, and `en` is its length up to
where `en` points. -/
def unescape : List UInt8 → List UInt8 → Nat → List UInt8
  | [], out, en => out.take en
  | c :: s, out, en =>
    if c = NEWLINE then out.take en
    else if c = BSLASH then
      match s with
      | [] => out.take en
      | d :: s =>
        if d = NEWLINE then out.take en
        else unescape s (out ++ unescapeChar d) (out ++ unescapeChar d).length
    else unescape s (out ++ [c]) (if c = 32 ∨ c = 9 then en else (out ++ [c]).length)

/-- The value of an entry, from behind its `=`. -/
def readValue (file : List UInt8) : List UInt8 :=
  unescape (file.dropWhile fun c => isspace c && c != NEWLINE) [] 0

/-! ## The memory of `joinArgs` -/

theorem length_storeChar (c : UInt8) : (storeChar c).length = charLen c := by
  by_cases hq : needsQuotes c = true
  · have hb : c ≠ BSLASH := fun h => by rw [h] at hq; cases hq
    have hd : c ≠ DQUOTE := fun h => by rw [h] at hq; cases hq
    simp [storeChar, charLen, hq, hb, hd]
  · by_cases hd : c = DQUOTE
    · subst hd
      rfl
    · by_cases hb : c = BSLASH
      · subst hb
        rfl
      · simp [storeChar, charLen, hq, hb, hd]

theorem length_storeWord (s : List UInt8) : (storeWord s).length = wordLen s := by
  have hflat : (s.flatMap storeChar).length = (s.map charLen).sum := by
    rw [List.length_flatMap]
    exact congrArg List.sum (List.map_congr_left fun c _ => length_storeChar c)
  rw [storeWord, wordLen, ← hflat]
  split
  · simp
  · rfl

/-- **The memory of `joinArgs`** is what it needs, to the byte. -/
theorem length_storeWords {argv : List (List UInt8)} (hne : argv ≠ []) :
    (storeWords argv).length + 1 = joinLen argv := by
  induction argv with
  | nil => exact absurd rfl hne
  | cons s argv ih =>
    cases argv with
    | nil => simp [storeWords, joinLen, length_storeWord]
    | cons s' argv =>
      have ih := ih (List.cons_ne_nil _ _)
      rw [storeWords_cons, List.length_append, List.length_cons, length_storeWord, joinLen,
        List.map_cons, List.sum_cons, ← joinLen, ← ih]
      omega

theorem joinArgs_eq (argv : List (List UInt8)) : joinArgs argv = some (storeWords argv) := by
  rw [joinArgs]
  split
  · rename_i h
    rw [h]
    rfl
  · rename_i h
    rw [if_pos (Nat.le_of_eq (length_storeWords h))]

/-! ## What is stored, and what is left of it in a value -/

theorem storeWords_eq (argv : List (List UInt8)) :
    storeWords argv = joined splitter storeChar needsQuotes 32 argv := by
  induction argv with
  | nil => rfl
  | cons s argv ih =>
    cases argv with
    | nil => rfl
    | cons s' argv =>
      rw [storeWords_cons, joined_cons, ih]
      rfl

/-- What the daemon finds for a character. -/
def valueChar (c : UInt8) : List UInt8 :=
  if c = DQUOTE ∨ c = BSLASH then [BSLASH, c] else [c]

theorem storeChar_plain {c : UInt8} (hd : c ≠ DQUOTE) (hb : c ≠ BSLASH) : storeChar c = [c] := by
  simp [storeChar, hd, hb]

theorem valueChar_plain {c : UInt8} (hd : c ≠ DQUOTE) (hb : c ≠ BSLASH) : valueChar c = [c] := by
  simp [valueChar, hd, hb]

/-- A character without a meaning for a scanner. -/
theorem encodes_plain {S : Scanner UInt8} {enc : UInt8 → List UInt8} {quoted : UInt8 → Bool}
    {c : UInt8} (henc : enc c = [c]) (h0 : c ≠ S.nul) (hd : c ≠ S.quote .double)
    (hb : c ≠ S.bslash) (hq : quoted c = false → S.blank c = false ∧ c ≠ S.quote .single) :
    S.Encodes enc quoted c := by
  refine ⟨fun d p => ?_, fun h d p => ⟨c, d :: p, c, ?_, ?_, ?_⟩⟩
  · rw [henc]
    exact S.copyQuoted_char hd h0 hb (d :: p)
  · rw [henc]
    rfl
  · exact S.ends_false h0 (hq h).1
  · refine S.copyStep_char hb (fun k => ?_) _
    cases k with
    | single => exact (hq h).2
    | double => exact hd

/-- A character behind backslashes. -/
theorem encodes_jump {S : Scanner UInt8} {enc : UInt8 → List UInt8} {quoted : UInt8 → Bool}
    {c : UInt8} {e : List UInt8} (henc : enc c = S.bslash :: e) (hend : S.ends S.bslash = false)
    (hq : S.bslash ≠ S.quote .double)
    (hjump : ∀ m, m ≠ some .single → ∀ d p, S.jump m S.bslash (e ++ d :: p) = some (c, d :: p)) :
    S.Encodes enc quoted c := by
  have h0 : S.bslash ≠ S.nul := fun h => by
    rw [h, S.ends_nul] at hend
    cases hend
  refine ⟨fun d p => ?_, fun _ d p => ⟨S.bslash, e ++ d :: p, c, ?_, hend, ?_⟩⟩
  · rw [henc]
    exact S.copyQuoted_jump hq h0 (hjump _ (by decide) d p)
  · rw [henc]
    rfl
  · exact S.copyStep_jump (hjump _ (by decide) d p)

theorem not_quoted {c : UInt8} (h : needsQuotes c = false) : isspace c = false ∧ c ≠ SQUOTE := by
  rw [needsQuotes, Bool.or_eq_false_iff, beq_eq_false_iff_ne] at h
  exact h

theorem splitter_encodes {c : UInt8} (h0 : c ≠ 0) : splitter.Encodes storeChar needsQuotes c := by
  by_cases hd : c = DQUOTE
  · subst hd
    refine encodes_jump (e := [BSLASH, DQUOTE]) rfl rfl (by decide) fun m hm d p => ?_
    cases m with
    | none => rfl
    | some k =>
      cases k with
      | single => exact absurd rfl hm
      | double => rfl
  · by_cases hb : c = BSLASH
    · subst hb
      refine encodes_jump (e := [BSLASH, BSLASH, BSLASH]) rfl rfl (by decide) fun m hm d p => ?_
      cases m with
      | none => rfl
      | some k =>
        cases k with
        | single => exact absurd rfl hm
        | double => rfl
    · exact encodes_plain (storeChar_plain hd hb) h0 hd hb not_quoted

theorem parser_encodes {c : UInt8} (h0 : c ≠ 0) : parser.Encodes valueChar needsQuotes c := by
  by_cases hm : c = DQUOTE ∨ c = BSLASH
  · refine encodes_jump (e := [c]) (if_pos hm) rfl (by decide) fun m hm d p => ?_
    cases m with
    | none => exact congrArg some (if_neg h0)
    | some k =>
      cases k with
      | single => exact absurd rfl hm
      | double => exact congrArg some (if_neg h0)
  · obtain ⟨hd, hb⟩ := not_or.mp hm
    exact encodes_plain (valueChar_plain hd hb) h0 hd hb not_quoted

theorem splitter_distinct : splitter.Distinct := ⟨rfl, by decide, by decide⟩

theorem parser_distinct : parser.Distinct := ⟨rfl, by decide, by decide⟩

/-! ## Unescaping -/

theorem unescape_newline (s out : List UInt8) (en : Nat) :
    unescape (NEWLINE :: s) out en = out.take en := by
  cases s <;> rfl

theorem unescape_cons {c : UInt8} (hn : c ≠ NEWLINE) (hb : c ≠ BSLASH) (s out : List UInt8)
    (en : Nat) : unescape (c :: s) out en =
      unescape s (out ++ [c]) (if c = 32 ∨ c = 9 then en else (out ++ [c]).length) := by
  rw [unescape.eq_def]
  exact (if_neg hn).trans (if_neg hb)

theorem unescape_escape {c : UInt8} (hn : c ≠ NEWLINE) (s out : List UInt8) (en : Nat) :
    unescape (BSLASH :: c :: s) out en =
      unescape s (out ++ unescapeChar c) (out ++ unescapeChar c).length := by
  rw [unescape, if_neg (by decide), if_pos rfl]
  exact if_neg hn

/-- A stored character of a value; the end is behind it unless it is a blank. -/
theorem unescape_storeChar {c : UInt8} (hn : c ≠ NEWLINE) (s out : List UInt8) (en : Nat) :
    unescape (storeChar c ++ s) out en = unescape s (out ++ valueChar c)
      (if c = 32 ∨ c = 9 then en else (out ++ valueChar c).length) := by
  by_cases hd : c = DQUOTE
  · subst hd
    show unescape (BSLASH :: BSLASH :: DQUOTE :: s) out en = _
    rw [unescape_escape (by decide), unescape_cons (by decide) (by decide), if_neg (by decide),
      List.append_assoc]
    rfl
  · by_cases hb : c = BSLASH
    · subst hb
      show unescape (BSLASH :: BSLASH :: BSLASH :: BSLASH :: s) out en = _
      rw [unescape_escape (by decide), unescape_escape (by decide), List.append_assoc]
      rfl
    · rw [storeChar_plain hd hb, valueChar_plain hd hb]
      exact unescape_cons hn hb s out en

theorem unescape_flatMap {w : List UInt8} (hn : NEWLINE ∉ w) (s out : List UInt8) (en : Nat) :
    ∃ en', unescape (w.flatMap storeChar ++ s) out en =
      unescape s (out ++ w.flatMap valueChar) en' := by
  induction w generalizing out en with
  | nil => exact ⟨en, by rw [List.flatMap_nil, List.flatMap_nil, List.append_nil]; rfl⟩
  | cons c w ih =>
    obtain ⟨hc, hn⟩ := not_or.mp fun h => hn (List.mem_cons.mpr h)
    rw [List.flatMap_cons, List.append_assoc, unescape_storeChar (Ne.symm hc)]
    obtain ⟨en', h⟩ := ih hn (out ++ valueChar c)
      (if c = 32 ∨ c = 9 then en else (out ++ valueChar c).length)
    exact ⟨en', by rw [h, List.flatMap_cons, List.append_assoc]⟩

/-- The end of a value is behind its last character when no blank is among the last ones. -/
theorem unescape_unquoted {w : List UInt8} (hn : NEWLINE ∉ w) (hq : w.any needsQuotes = false)
    (s out : List UInt8) :
    unescape (w.flatMap storeChar ++ s) out out.length =
      unescape s (out ++ w.flatMap valueChar) (out ++ w.flatMap valueChar).length := by
  induction w generalizing out with
  | nil => rw [List.flatMap_nil, List.flatMap_nil, List.append_nil]; rfl
  | cons c w ih =>
    obtain ⟨hc, hn⟩ := not_or.mp fun h => hn (List.mem_cons.mpr h)
    rw [List.any_cons, Bool.or_eq_false_iff] at hq
    have hblank : ¬ (c = 32 ∨ c = 9) := by
      rintro (rfl | rfl)
      · cases hq.1
      · cases hq.1
    rw [List.flatMap_cons, List.append_assoc, unescape_storeChar (Ne.symm hc), if_neg hblank,
      ih hn hq.2, List.flatMap_cons, List.append_assoc]

/-- A stored word of a value; the end is behind it. -/
theorem unescape_storeWord {w : List UInt8} (hne : w ≠ []) (hn : NEWLINE ∉ w)
    (s out : List UInt8) (en : Nat) :
    unescape (storeWord w ++ s) out en =
      unescape s (out ++ written parser valueChar needsQuotes w)
        (out ++ written parser valueChar needsQuotes w).length := by
  rw [storeWord, written]
  split
  · rename_i hq
    rw [List.cons_append, List.append_assoc, unescape_cons (by decide) (by decide)]
    obtain ⟨en', h⟩ := unescape_flatMap hn ([DQUOTE] ++ s) (out ++ [DQUOTE])
      (if DQUOTE = 32 ∨ DQUOTE = 9 then en else (out ++ [DQUOTE]).length)
    rw [h, List.singleton_append, unescape_cons (by decide) (by decide), if_neg (by decide)]
    have hout : out ++ [DQUOTE] ++ w.flatMap valueChar ++ [DQUOTE] =
        out ++ (DQUOTE :: (w.flatMap valueChar ++ [DQUOTE])) := by simp
    rw [hout]
    rfl
  · rename_i hq
    cases w with
    | nil => exact absurd rfl hne
    | cons c w =>
      obtain ⟨hc, hn⟩ := not_or.mp fun h => hn (List.mem_cons.mpr h)
      rw [Bool.not_eq_true, List.any_cons, Bool.or_eq_false_iff] at hq
      have hblank : ¬ (c = 32 ∨ c = 9) := by
        rintro (rfl | rfl)
        · cases hq.1
        · cases hq.1
      rw [List.flatMap_cons, List.append_assoc, unescape_storeChar (Ne.symm hc), if_neg hblank,
        unescape_unquoted hn hq.2, List.flatMap_cons, List.append_assoc]

theorem unescape_storeWords {w : List UInt8} {argv : List (List UInt8)}
    (hargv : ∀ v ∈ w :: argv, v ≠ [] ∧ NEWLINE ∉ v) (rest out : List UInt8) (en : Nat) :
    unescape (storeWords (w :: argv) ++ NEWLINE :: rest) out en =
      out ++ joined parser valueChar needsQuotes 32 (w :: argv) := by
  induction argv generalizing w out en with
  | nil =>
    obtain ⟨hne, hn⟩ := hargv w List.mem_cons_self
    rw [storeWords, unescape_storeWord hne hn, unescape_newline, List.take_length, joined]
  | cons w' argv ih =>
    obtain ⟨hne, hn⟩ := hargv w List.mem_cons_self
    rw [storeWords_cons, List.append_assoc, List.cons_append, unescape_storeWord hne hn,
      unescape_cons (by decide) (by decide), ih fun v hv => hargv v (List.mem_cons_of_mem _ hv),
      joined_cons]
    simp

/-- The value starts where it was written. -/
theorem readValue_storeWords {argv : List (List UInt8)}
    (hargv : ∀ w ∈ argv, w ≠ [] ∧ (0 : UInt8) ∉ w ∧ NEWLINE ∉ w) (rest : List UInt8) :
    readValue (storeWords argv ++ NEWLINE :: rest) = joined parser valueChar needsQuotes 32 argv := by
  cases argv with
  | nil =>
    rw [storeWords, List.nil_append, readValue, List.dropWhile_cons_of_neg (by decide),
      unescape_newline, List.take_nil, joined]
  | cons w argv =>
    obtain ⟨hne, h0, _⟩ := hargv w List.mem_cons_self
    have hw : ∀ c ∈ w, splitter.Encodes storeChar needsQuotes c := fun c hc =>
      splitter_encodes fun he => h0 (he ▸ hc)
    obtain ⟨t, ht⟩ : ∃ t, storeWords (w :: argv) = written splitter storeChar needsQuotes w ++ t := by
      rw [storeWords_eq]
      cases argv with
      | nil => exact ⟨[], (List.append_nil _).symm⟩
      | cons w' argv => exact ⟨_, rfl⟩
    obtain ⟨d, q, hdq⟩ : ∃ d q, t ++ NEWLINE :: rest = d :: q :=
      List.exists_cons_of_ne_nil (by simp)
    obtain ⟨e, p, hep, hend⟩ := written_cons splitter_distinct hne hw d q
    have hblank : isspace e = false := (Bool.or_eq_false_iff.mp hend).2
    have hall : storeWords (w :: argv) ++ NEWLINE :: rest = e :: p := by
      rw [ht, List.append_assoc, hdq, hep]
    rw [readValue, hall, List.dropWhile_cons_of_neg (by simp [hblank]), ← hall,
      unescape_storeWords fun v hv => ⟨(hargv v hv).1, (hargv v hv).2.2⟩, List.nil_append]

/-- **Migrated command lines** are the lists they were written from, for the daemon behind the
config reader and for `genkdmconf` itself. -/
theorem migrate_ok {argv : List (List UInt8)}
    (hargv : ∀ w ∈ argv, w ≠ [] ∧ (0 : UInt8) ∉ w ∧ NEWLINE ∉ w) :
    ∃ value, joinArgs argv = some value ∧
      (∀ rest, parseArgs [] (readValue (value ++ NEWLINE :: rest)) = some argv) ∧
      splitArgs value = some argv := by
  have h0 : ∀ w ∈ argv, ∀ c ∈ w, c ≠ 0 := fun w hw c hc he => (hargv w hw).2.1 (he ▸ hc)
  refine ⟨storeWords argv, joinArgs_eq argv, fun rest => ?_, ?_⟩
  · have hwords : parser.words (joined parser valueChar needsQuotes 32 argv ++ [parser.nul]) =
        some argv :=
      words_joined parser_distinct rfl (by decide) fun w hw =>
        ⟨(hargv w hw).1, fun c hc => parser_encodes (h0 w hw c hc)⟩
    rw [parseArgs, readValue_storeWords hargv]
    exact congrArg (Option.map ([] ++ ·)) hwords
  · rw [splitArgs, storeWords_eq]
    exact words_joined splitter_distinct rfl (by decide) fun w hw =>
      ⟨(hargv w hw).1, fun c hc => splitter_encodes (h0 w hw c hc)⟩

/-- `X`, `-a"b` and `c 'd\'`. -/
theorem migrate_server : ∃ value,
    joinArgs [[88], [45, 97, 34, 98], [99, 32, 39, 100, 92, 39]] = some value ∧
      (∀ rest, parseArgs [] (readValue (value ++ NEWLINE :: rest)) =
        some [[88], [45, 97, 34, 98], [99, 32, 39, 100, 92, 39]]) ∧
      splitArgs value = some [[88], [45, 97, 34, 98], [99, 32, 39, 100, 92, 39]] :=
  migrate_ok (by decide)

end Kdm.Args
