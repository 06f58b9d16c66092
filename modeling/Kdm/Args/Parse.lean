import Kdm.Lib.Scanner

/-!
# Splitting of command lines

`parseArgs` of `util.c` splits a string into words; a scanner of two passes.

* `parser` — what its two loops do at a backslash: it quotes the next character, if there is one,
  and it has no meaning in single quotes.
* `Line` — the grammar of the command lines; `closed` — every quote is closed.

Principal result: `parseArgs_iff`.
-/

namespace Kdm.Args

abbrev Ptr := List UInt8

def BSLASH : UInt8 := 92
def SQUOTE : UInt8 := 39
def DQUOTE : UInt8 := 34

def isspace (c : UInt8) : Bool := c == 32 || (9 ≤ c && c ≤ 13)

/-- `if (!*++string) string--`. -/
def escaped (c : UInt8) : Ptr → Option (UInt8 × Ptr)
  | [] => none
  | d :: p => some (if d = 0 then (c, d :: p) else (d, p))

theorem escaped_le {c x : UInt8} {p q : Ptr} (h : escaped c p = some (x, q)) :
    q.length ≤ p.length := by
  cases p with
  | nil => cases h
  | cons d p =>
    rw [escaped] at h
    split at h
    · cases h
      exact Nat.le_refl _
    · cases h
      exact Nat.le_succ _

def quoteChar : Quote → UInt8
  | .single => SQUOTE
  | .double => DQUOTE

/-- Where a backslash leads the loops of `parseArgs`. -/
def parseJump : Option Quote → UInt8 → Ptr → Option (UInt8 × Ptr)
  | some .single, c, p => some (c, p)
  | _, c, p => escaped c p

theorem parseJump_le {m : Option Quote} {c x : UInt8} {p q : Ptr}
    (h : parseJump m c p = some (x, q)) : q.length ≤ p.length := by
  unfold parseJump at h
  split at h
  · cases h
    exact Nat.le_refl _
  · exact escaped_le h

/-- The loops of `parseArgs`. -/
def parser : Scanner UInt8 where
  nul := 0
  bslash := BSLASH
  quote := quoteChar
  blank := isspace
  jump := parseJump
  jump_le := parseJump_le

/-- `parseArgs` of a C string. -/
def parseArgs (argv : List (List UInt8)) (string : List UInt8) : Option (List (List UInt8)) :=
  (parser.words (string ++ [0])).map (argv ++ ·)

/-! ## The grammar -/

/-- What stands between double quotes, and what it means. -/
inductive Quoted : List UInt8 → List UInt8 → Prop
  | nil : Quoted [] []
  | char {c : UInt8} {q v : List UInt8} (hq : c ≠ DQUOTE) (hb : c ≠ BSLASH) :
      Quoted q v → Quoted (c :: q) (c :: v)
  | escape {c : UInt8} {q v : List UInt8} : Quoted q v → Quoted (BSLASH :: c :: q) (c :: v)

/-- A part of a word, and what it means. -/
inductive Word : List UInt8 → List UInt8 → Prop
  | nil : Word [] []
  | char {c : UInt8} {w v : List UInt8} (hs : isspace c = false) (hc : c ∉ [BSLASH, SQUOTE, DQUOTE]) :
      Word w v → Word (c :: w) (c :: v)
  | escape {c : UInt8} {w v : List UInt8} : Word w v → Word (BSLASH :: c :: w) (c :: v)
  | single {q w v : List UInt8} (hq : SQUOTE ∉ q) :
      Word w v → Word (SQUOTE :: (q ++ SQUOTE :: w)) (q ++ v)
  | double {q v' w v : List UInt8} (hq : Quoted q v') :
      Word w v → Word (DQUOTE :: (q ++ DQUOTE :: w)) (v' ++ v)

/-- A command line and its words.  A backslash at the end stands for itself. -/
inductive Line : List UInt8 → List (List UInt8) → Prop
  | nil : Line [] []
  | blank {c : UInt8} {s : List UInt8} {l : List (List UInt8)} (hc : isspace c = true) :
      Line s l → Line (c :: s) l
  | last {w v : List UInt8} (hw : Word w v) (hne : w ≠ []) : Line w [v]
  | backslash {w v : List UInt8} (hw : Word w v) : Line (w ++ [BSLASH]) [v ++ [BSLASH]]
  | word {w v s : List UInt8} {c : UInt8} {l : List (List UInt8)} (hw : Word w v) (hne : w ≠ [])
      (hc : isspace c = true) : Line s l → Line (w ++ c :: s) (v :: l)

/-- Where a character stands. -/
inductive Mode where
  | plain
  | single
  | double
  deriving DecidableEq

/-- No quote is open at the end of the string. -/
def closed : Mode → List UInt8 → Bool
  | .plain, [] => true
  | .plain, c :: s =>
    if c = BSLASH then
      match s with
      | [] => true
      | _ :: s => closed .plain s
    else if c = SQUOTE then closed .single s
    else if c = DQUOTE then closed .double s
    else closed .plain s
  | .single, [] => false
  | .single, c :: s => if c = SQUOTE then closed .plain s else closed .single s
  | .double, [] => false
  | .double, c :: s =>
    if c = DQUOTE then closed .plain s
    else if c = BSLASH then
      match s with
      | [] => false
      | _ :: s => closed .double s
    else closed .double s

/-! ## The passes on words of the grammar -/

theorem copyQuoted_single {c : UInt8} (hc : c ≠ SQUOTE) (h0 : c ≠ 0) (p : Ptr) :
    parser.copyQuoted .single (c :: p) =
      (parser.copyQuoted .single p).map fun r => (c :: r.1, r.2) := by
  by_cases hb : c = BSLASH
  · subst hb
    exact parser.copyQuoted_jump hc h0 rfl
  · exact parser.copyQuoted_char hc h0 hb p

theorem copyQuoted_escape {c : UInt8} (h0 : c ≠ 0) (p : Ptr) :
    parser.copyQuoted .double (BSLASH :: c :: p) =
      (parser.copyQuoted .double p).map fun r => (c :: r.1, r.2) :=
  parser.copyQuoted_jump (by decide) (by decide) (congrArg some (if_neg h0))

/-- A backslash at the end of the string. -/
theorem copyQuoted_last : parser.copyQuoted .double [BSLASH, 0] = some ([BSLASH], [0]) := by
  have hnul : parser.copyQuoted .double [0] = some ([], [0]) := parser.copyQuoted_end (.inr rfl) []
  have hjump := parser.copyQuoted_jump (k := .double) (x := BSLASH) (p := [0]) (q := [0])
    (by decide) (by decide) rfl
  rw [hnul] at hjump
  exact hjump

theorem copyStep_escape {c : UInt8} (h0 : c ≠ 0) (p : Ptr) :
    parser.copyStep (BSLASH :: c :: p) = some ([c], c :: p) :=
  parser.copyStep_jump (congrArg some (if_neg h0))

theorem copyStep_single (p : Ptr) :
    parser.copyStep (SQUOTE :: p) = parser.copyQuoted .single p := rfl

theorem copyStep_double (p : Ptr) :
    parser.copyStep (DQUOTE :: p) = parser.copyQuoted .double p := rfl

theorem copyStep_char {c : UInt8} (hc : c ∉ [BSLASH, SQUOTE, DQUOTE]) (p : Ptr) :
    parser.copyStep (c :: p) = some ([c], c :: p) := by
  simp only [List.mem_cons, List.not_mem_nil, or_false, not_or] at hc
  refine parser.copyStep_char hc.1 (fun k => ?_) p
  cases k with
  | single => exact hc.2.1
  | double => exact hc.2.2

theorem copySingle_quote {q : List UInt8} (hq : SQUOTE ∉ q) (h0 : (0 : UInt8) ∉ q) (p : Ptr) :
    parser.copyQuoted .single (q ++ SQUOTE :: p) = some (q, SQUOTE :: p) := by
  induction q with
  | nil => exact parser.copyQuoted_end (.inl rfl) p
  | cons c q ih =>
    obtain ⟨hc, hq⟩ := not_or.mp fun h => hq (List.mem_cons.mpr h)
    obtain ⟨hc0, h0⟩ := not_or.mp fun h => h0 (List.mem_cons.mpr h)
    rw [List.cons_append, copyQuoted_single (Ne.symm hc) (Ne.symm hc0), ih hq h0]
    rfl

theorem copyDouble_quote {q v : List UInt8} (hq : Quoted q v) (h0 : (0 : UInt8) ∉ q) (p : Ptr) :
    parser.copyQuoted .double (q ++ DQUOTE :: p) = some (v, DQUOTE :: p) := by
  induction hq with
  | nil => exact parser.copyQuoted_end (.inl rfl) p
  | @char c q v hq hb _ ih =>
    obtain ⟨hc0, h0⟩ := not_or.mp fun h => h0 (List.mem_cons.mpr h)
    rw [List.cons_append, parser.copyQuoted_char hq (Ne.symm hc0) hb, ih h0]
    rfl
  | @escape c q v _ ih =>
    obtain ⟨_, h0⟩ := not_or.mp fun h => h0 (List.mem_cons.mpr h)
    obtain ⟨hc0, h0⟩ := not_or.mp fun h => h0 (List.mem_cons.mpr h)
    rw [List.cons_append, List.cons_append, copyQuoted_escape (Ne.symm hc0), ih h0]
    rfl

/-- **The second pass on a word of the grammar** stores what the word means. -/
theorem reads_append {w v t v' : List UInt8} {r : Ptr} (hw : Word w v) (h0 : (0 : UInt8) ∉ w)
    (ht : parser.Reads t v' r) : parser.Reads (w ++ t) (v ++ v') r := by
  induction hw with
  | nil => exact ht
  | @char c w v hs hc _ ih =>
    obtain ⟨hc0, h0⟩ := not_or.mp fun h => h0 (List.mem_cons.mpr h)
    exact (ih h0).step (parser.ends_false (Ne.symm hc0) hs) (copyStep_char hc _)
  | @escape c w v _ ih =>
    obtain ⟨_, h0⟩ := not_or.mp fun h => h0 (List.mem_cons.mpr h)
    obtain ⟨hc0, h0⟩ := not_or.mp fun h => h0 (List.mem_cons.mpr h)
    exact (ih h0).step rfl (copyStep_escape (Ne.symm hc0) _)
  | @single q w v hq _ ih =>
    obtain ⟨_, h0⟩ := not_or.mp fun h => h0 (List.mem_cons.mpr h)
    rw [List.mem_append, not_or] at h0
    obtain ⟨_, h0'⟩ := not_or.mp fun h => h0.2 (List.mem_cons.mpr h)
    rw [List.cons_append, List.append_assoc, List.append_assoc]
    exact (ih h0').step rfl (copySingle_quote hq h0.1 _)
  | @double q v'' w v hq _ ih =>
    obtain ⟨_, h0⟩ := not_or.mp fun h => h0 (List.mem_cons.mpr h)
    rw [List.mem_append, not_or] at h0
    obtain ⟨_, h0'⟩ := not_or.mp fun h => h0.2 (List.mem_cons.mpr h)
    rw [List.cons_append, List.append_assoc, List.append_assoc]
    exact (ih h0').step rfl (copyDouble_quote hq h0.1 _)

theorem Word.head {c : UInt8} {w v : List UInt8} (h : Word (c :: w) v) : isspace c = false := by
  cases h with
  | char hs => exact hs
  | escape => rfl
  | single => rfl
  | double => rfl

/-- A word of the grammar at the pointer. -/
theorem words_append {w v t v' : List UInt8} {r : Ptr} (hne : w ≠ []) (hw : Word w v)
    (h0 : (0 : UInt8) ∉ w) (ht : parser.Reads t v' r) :
    parser.words (w ++ t) = (parser.words r).map ((v ++ v') :: ·) := by
  have hreads := reads_append hw h0 ht
  cases w with
  | nil => exact absurd rfl hne
  | cons c w =>
    obtain ⟨hc0, _⟩ := not_or.mp fun h => h0 (List.mem_cons.mpr h)
    exact hreads.words (parser.ends_false (Ne.symm hc0) hw.head)

theorem reads_nul : parser.Reads [0] [] [0] := .here parser.ends_nul

theorem reads_backslash : parser.Reads [BSLASH, 0] [BSLASH] [0] :=
  reads_nul.step (v := [BSLASH]) (x := BSLASH) rfl rfl

theorem words_nul : parser.words [0] = some [] := parser.words_nul []

theorem words_blank {c : UInt8} (hc : isspace c = true) (p : Ptr) :
    parser.words (c :: p) = parser.words p := by
  have h0 : c ≠ 0 := fun h => by rw [h] at hc; cases hc
  exact parser.words_blank h0 hc p

/-- **Command lines of the grammar** are split into their words. -/
theorem words_line {s : List UInt8} {l : List (List UInt8)} (h : Line s l)
    (h0 : (0 : UInt8) ∉ s) : parser.words (s ++ [0]) = some l := by
  induction h with
  | nil => exact words_nul
  | blank hc _ ih =>
    rw [List.cons_append, words_blank hc]
    exact ih fun hm => h0 (List.mem_cons_of_mem _ hm)
  | @last w v hw hne =>
    rw [words_append hne hw h0 reads_nul, words_nul, List.append_nil]
    rfl
  | @backslash w v hw =>
    rw [List.append_assoc]
    show parser.words (w ++ [BSLASH, 0]) = _
    by_cases hne : w = []
    · subst hne
      cases hw
      rw [List.nil_append, reads_backslash.words rfl, words_nul]
      rfl
    · have hw0 : (0 : UInt8) ∉ w := fun hm => h0 (List.mem_append_left _ hm)
      rw [words_append hne hw hw0 reads_backslash, words_nul]
      rfl
  | @word w v s c l hw hne hc _ ih =>
    rw [List.mem_append, not_or] at h0
    have hs : (0 : UInt8) ∉ s := fun hm => h0.2 (List.mem_cons_of_mem _ hm)
    rw [List.append_assoc, List.cons_append,
      words_append hne hw h0.1 (.here (parser.ends_blank hc)), words_blank hc, ih hs,
      List.append_nil]
    rfl

/-! ## Open quotes -/

theorem closed_plain (c : UInt8) (s : List UInt8) :
    closed .plain (c :: s) = if c = BSLASH then
        match s with
        | [] => true
        | _ :: s => closed .plain s
      else if c = SQUOTE then closed .single s
      else if c = DQUOTE then closed .double s
      else closed .plain s := by
  cases s <;> rfl

theorem closed_double (c : UInt8) (s : List UInt8) :
    closed .double (c :: s) = if c = DQUOTE then closed .plain s
      else if c = BSLASH then
        match s with
        | [] => false
        | _ :: s => closed .double s
      else closed .double s := by
  cases s <;> rfl

theorem closed_blank {c : UInt8} (hc : isspace c = true) (s : List UInt8) :
    closed .plain (c :: s) = closed .plain s := by
  have hne : ∀ d, isspace d = false → c ≠ d := fun d hd he => by simp [he, hd] at hc
  rw [closed_plain, if_neg (hne _ rfl), if_neg (hne _ rfl), if_neg (hne _ rfl)]

/-- A single quote is closed somewhere, or the pass comes to the end of the string. -/
theorem single_cases {s : List UInt8} (h0 : (0 : UInt8) ∉ s) :
    (∃ q t, SQUOTE ∉ q ∧ s = q ++ SQUOTE :: t ∧ closed .single s = closed .plain t) ∨
      (closed .single s = false ∧ ∃ v, parser.copyQuoted .single (s ++ [0]) = some (v, [0])) := by
  induction s with
  | nil => exact .inr ⟨rfl, [], parser.copyQuoted_end (.inr rfl) []⟩
  | cons c s ih =>
    obtain ⟨hc0, h0⟩ := not_or.mp fun h => h0 (List.mem_cons.mpr h)
    by_cases hc : c = SQUOTE
    · subst hc
      exact .inl ⟨[], s, List.not_mem_nil, rfl, rfl⟩
    · have hcl : closed .single (c :: s) = closed .single s := if_neg hc
      rw [hcl]
      rcases ih h0 with ⟨q, t, hq, rfl, ht⟩ | ⟨ht, v, hv⟩
      · refine .inl ⟨c :: q, t, fun h => ?_, rfl, ht⟩
        exact (List.mem_cons.mp h).elim (fun he => hc he.symm) hq
      · refine .inr ⟨ht, c :: v, ?_⟩
        rw [List.cons_append, copyQuoted_single hc (Ne.symm hc0), hv]
        rfl

theorem double_cases {s : List UInt8} (h0 : (0 : UInt8) ∉ s) :
    (∃ q v t, Quoted q v ∧ s = q ++ DQUOTE :: t ∧ closed .double s = closed .plain t) ∨
      (closed .double s = false ∧ ∃ v, parser.copyQuoted .double (s ++ [0]) = some (v, [0])) := by
  induction hn : s.length using Nat.strongRecOn generalizing s with
  | ind n ih =>
    cases s with
    | nil => exact .inr ⟨rfl, [], parser.copyQuoted_end (.inr rfl) []⟩
    | cons c s =>
      obtain ⟨hc0, h0'⟩ := not_or.mp fun h => h0 (List.mem_cons.mpr h)
      rw [closed_double]
      by_cases hc : c = DQUOTE
      · subst hc
        exact .inl ⟨[], [], s, .nil, rfl, rfl⟩
      rw [if_neg hc]
      by_cases hb : c = BSLASH
      · subst hb
        rw [if_pos rfl]
        cases s with
        | nil =>
          exact .inr ⟨rfl, [BSLASH], copyQuoted_last⟩
        | cons d s =>
          obtain ⟨hd0, hs0⟩ := not_or.mp fun h => h0' (List.mem_cons.mpr h)
          rcases ih s.length (by simp at hn; omega) hs0 rfl with
            ⟨q, v, t, hq, rfl, ht⟩ | ⟨ht, v, hv⟩
          · exact .inl ⟨BSLASH :: d :: q, d :: v, t, .escape hq, rfl, ht⟩
          · refine .inr ⟨ht, d :: v, ?_⟩
            rw [List.cons_append, List.cons_append, copyQuoted_escape (Ne.symm hd0), hv]
            rfl
      · rw [if_neg hb]
        rcases ih s.length (by simp at hn; omega) h0' rfl with ⟨q, v, t, hq, rfl, ht⟩ | ⟨ht, v, hv⟩
        · exact .inl ⟨c :: q, c :: v, t, .char hc hb hq, rfl, ht⟩
        · refine .inr ⟨ht, c :: v, ?_⟩
          rw [List.cons_append, parser.copyQuoted_char hc (Ne.symm hc0) hb, hv]
          rfl

/-- What is left when a word is over. -/
inductive Over : List UInt8 → Prop
  | nil : Over []
  | backslash : Over [BSLASH]
  | blank {c : UInt8} {s : List UInt8} (hc : isspace c = true) : Over (c :: s)

/-- A string starts with a word, or it starts with one in which a quote is open and the pass leaves
the string. -/
theorem word_cases {s : List UInt8} (h0 : (0 : UInt8) ∉ s) :
    (∃ w v t, Word w v ∧ s = w ++ t ∧ Over t ∧ closed .plain s = closed .plain t) ∨
      (closed .plain s = false ∧ parser.copyWord (s ++ [0]) = none ∧
        ∃ c s', s = c :: s' ∧ isspace c = false) := by
  induction hn : s.length using Nat.strongRecOn generalizing s with
  | ind n ih =>
    cases s with
    | nil => exact .inl ⟨[], [], [], .nil, rfl, .nil, rfl⟩
    | cons c s =>
      obtain ⟨hc0, h0'⟩ := not_or.mp fun h => h0 (List.mem_cons.mpr h)
      cases hs : isspace c with
      | true => exact .inl ⟨[], [], c :: s, .nil, rfl, .blank hs, rfl⟩
      | false =>
        have hends : parser.ends c = false := parser.ends_false (Ne.symm hc0) hs
        -- the word goes on behind its first part, or the pass fails there as it fails at once
        have hopen : ∀ {str x t}, parser.copyStep (c :: s ++ [0]) = some (str, x :: (t ++ [0])) →
            parser.copyWord (t ++ [0]) = none → (∃ d t', t = d :: t' ∧ isspace d = false) →
            (0 : UInt8) ∉ t → parser.copyWord (c :: s ++ [0]) = none := by
          rintro str x t hstep hnone ⟨d, t', rfl, hd⟩ ht0
          obtain ⟨hd0, _⟩ := not_or.mp fun h => ht0 (List.mem_cons.mpr h)
          rw [parser.copyWord_cons hstep, if_neg (by simp [parser.ends_false (Ne.symm hd0) hd])]
          exact Option.map_eq_none_iff.mpr hnone
        rw [closed_plain]
        by_cases hb : c = BSLASH
        · subst hb
          rw [if_pos rfl]
          cases s with
          | nil => exact .inl ⟨[], [], [BSLASH], .nil, rfl, .backslash, rfl⟩
          | cons d s =>
            obtain ⟨hd0, hs0⟩ := not_or.mp fun h => h0' (List.mem_cons.mpr h)
            rcases ih s.length (by simp at hn; omega) hs0 rfl with
              ⟨w, v, t, hw, rfl, ht, hcl⟩ | ⟨hcl, hnone, hhead⟩
            · exact .inl ⟨BSLASH :: d :: w, d :: v, t, .escape hw, rfl, ht, hcl⟩
            · have hstep : parser.copyStep (BSLASH :: d :: s ++ [0]) = some ([d], d :: (s ++ [0])) :=
                copyStep_escape (Ne.symm hd0) _
              exact .inr ⟨hcl, hopen hstep hnone hhead hs0, BSLASH, d :: s, rfl, hs⟩
        rw [if_neg hb]
        by_cases hq : c = SQUOTE
        · subst hq
          rw [if_pos rfl]
          rcases single_cases h0' with ⟨q, t, hqq, rfl, hcl⟩ | ⟨hcl, v, hv⟩
          · have hq0 : (0 : UInt8) ∉ q := fun h => h0' (List.mem_append_left _ h)
            have ht0 : (0 : UInt8) ∉ t := fun h =>
              h0' (List.mem_append_right _ (List.mem_cons_of_mem _ h))
            rcases ih t.length (by simp at hn; omega) ht0 rfl with
              ⟨w, v, t, hw, rfl, ht, hcl'⟩ | ⟨hcl', hnone, hhead⟩
            · refine .inl ⟨SQUOTE :: (q ++ SQUOTE :: w), q ++ v, t, .single hqq hw, ?_, ht, ?_⟩
              · simp
              · rw [hcl, hcl']
            · have hstep : parser.copyStep (SQUOTE :: (q ++ SQUOTE :: t) ++ [0]) =
                  some (q, SQUOTE :: (t ++ [0])) := by
                rw [List.cons_append, List.append_assoc, copyStep_single]
                exact copySingle_quote hqq hq0 _
              exact .inr ⟨hcl.trans hcl', hopen hstep hnone hhead ht0, SQUOTE, _, rfl, hs⟩
          · have hend : parser.copyStep (SQUOTE :: s ++ [0]) = parser.copyQuoted .single (s ++ [0]) := rfl
            exact .inr ⟨hcl, parser.copyWord_short (hend.trans hv) (by decide), SQUOTE, s, rfl, hs⟩
        rw [if_neg hq]
        by_cases hd : c = DQUOTE
        · subst hd
          rw [if_pos rfl]
          rcases double_cases h0' with ⟨q, v', t, hqq, rfl, hcl⟩ | ⟨hcl, v, hv⟩
          · have hq0 : (0 : UInt8) ∉ q := fun h => h0' (List.mem_append_left _ h)
            have ht0 : (0 : UInt8) ∉ t := fun h =>
              h0' (List.mem_append_right _ (List.mem_cons_of_mem _ h))
            rcases ih t.length (by simp at hn; omega) ht0 rfl with
              ⟨w, v, t, hw, rfl, ht, hcl'⟩ | ⟨hcl', hnone, hhead⟩
            · refine .inl ⟨DQUOTE :: (q ++ DQUOTE :: w), v' ++ v, t, .double hqq hw, ?_, ht, ?_⟩
              · simp
              · rw [hcl, hcl']
            · have hstep : parser.copyStep (DQUOTE :: (q ++ DQUOTE :: t) ++ [0]) =
                  some (v', DQUOTE :: (t ++ [0])) := by
                rw [List.cons_append, List.append_assoc, copyStep_double]
                exact copyDouble_quote hqq hq0 _
              exact .inr ⟨hcl.trans hcl', hopen hstep hnone hhead ht0, DQUOTE, _, rfl, hs⟩
          · have hend : parser.copyStep (DQUOTE :: s ++ [0]) = parser.copyQuoted .double (s ++ [0]) := rfl
            exact .inr ⟨hcl, parser.copyWord_short (hend.trans hv) (by decide), DQUOTE, s, rfl, hs⟩
        rw [if_neg hd]
        have hplain : c ∉ [BSLASH, SQUOTE, DQUOTE] := by simp [hb, hq, hd]
        rcases ih s.length (by simp at hn; omega) h0' rfl with
          ⟨w, v, t, hw, rfl, ht, hcl⟩ | ⟨hcl, hnone, hhead⟩
        · exact .inl ⟨c :: w, c :: v, t, .char hs hplain hw, rfl, ht, hcl⟩
        · have hstep : parser.copyStep (c :: s ++ [0]) = some ([c], c :: (s ++ [0])) :=
            copyStep_char hplain _
          exact .inr ⟨hcl, hopen hstep hnone hhead h0', c, s, rfl, hs⟩

/-- A string is a command line of the grammar, or a quote is open in it and the passes leave it. -/
theorem line_cases {s : List UInt8} (h0 : (0 : UInt8) ∉ s) :
    (closed .plain s = true ∧ ∃ l, Line s l) ∨
      (closed .plain s = false ∧ parser.words (s ++ [0]) = none) := by
  induction hn : s.length using Nat.strongRecOn generalizing s with
  | ind n ih =>
    rcases word_cases h0 with ⟨w, v, t, hw, rfl, ht, hcl⟩ | ⟨hcl, hnone, c, s, rfl, hs⟩
    · rw [hcl]
      cases ht with
      | nil =>
        refine .inl ⟨rfl, ?_⟩
        rw [List.append_nil]
        by_cases hne : w = []
        · exact ⟨[], hne ▸ .nil⟩
        · exact ⟨[v], .last hw hne⟩
      | backslash => exact .inl ⟨rfl, _, .backslash hw⟩
      | @blank c t hc =>
        have ht0 : (0 : UInt8) ∉ t := fun h =>
          h0 (List.mem_append_right _ (List.mem_cons_of_mem _ h))
        have hw0 : (0 : UInt8) ∉ w := fun h => h0 (List.mem_append_left _ h)
        have hlt : t.length < n := by
          simp only [List.length_append, List.length_cons] at hn
          omega
        rw [closed_blank hc]
        rcases ih t.length hlt ht0 rfl with ⟨hcl', l, hl⟩ | ⟨hcl', hnone⟩
        · refine .inl ⟨hcl', ?_⟩
          by_cases hne : w = []
          · exact ⟨l, hne ▸ .blank hc hl⟩
          · exact ⟨v :: l, .word hw hne hc hl⟩
        · refine .inr ⟨hcl', ?_⟩
          rw [List.append_assoc, List.cons_append]
          by_cases hne : w = []
          · rw [hne, List.nil_append, words_blank hc, hnone]
          · rw [words_append hne hw hw0 (.here (parser.ends_blank hc)), words_blank hc, hnone]
            rfl
    · obtain ⟨hc0, _⟩ := not_or.mp fun h => h0 (List.mem_cons.mpr h)
      refine .inr ⟨hcl, ?_⟩
      rw [List.cons_append] at hnone ⊢
      rw [parser.words_word (Ne.symm hc0) hs, hnone]
      rfl

/-- **The splitting of a command line** stays in the string, the length of each word is what is
stored of it, and the words are those of the grammar, if and only if no quote is open at the end of
the string. -/
theorem parseArgs_iff (argv : List (List UInt8)) {s : List UInt8} (h0 : (0 : UInt8) ∉ s) :
    ((∃ l, parseArgs argv s = some (argv ++ l) ∧ ∀ l', Line s l' ↔ l' = l) ∧
      ∀ p, p <:+ s ++ [0] → parser.countWord p 0 = (parser.copyWord p).map fun r => (r.1.length, r.2)) ↔
      closed .plain s = true := by
  constructor
  · rintro ⟨⟨l, hl, _⟩, _⟩
    rcases line_cases h0 with ⟨hcl, _⟩ | ⟨_, hnone⟩
    · exact hcl
    · rw [parseArgs, hnone] at hl
      cases hl
  · intro hcl
    refine ⟨?_, fun p _ => ?_⟩
    · rcases line_cases h0 with ⟨_, l, hl⟩ | ⟨hopen, _⟩
      · refine ⟨l, ?_, fun l' => ⟨fun h => ?_, fun h => h ▸ hl⟩⟩
        · rw [parseArgs, words_line hl h0]
          rfl
        · exact Option.some.inj ((words_line h h0).symm.trans (words_line hl h0))
      · rw [hopen] at hcl
        cases hcl
    · rw [parser.countWord_eq]
      simp only [Nat.zero_add]

/-- `X '-a b' \"c`. -/
theorem parseArgs_server :
    (∃ l, parseArgs [] [88, 32, 39, 45, 97, 32, 98, 39, 32, 92, 34, 99] = some ([] ++ l) ∧
        ∀ l', Line [88, 32, 39, 45, 97, 32, 98, 39, 32, 92, 34, 99] l' ↔ l' = l) ∧
      ∀ p, p <:+ [88, 32, 39, 45, 97, 32, 98, 39, 32, 92, 34, 99] ++ [0] →
        parser.countWord p 0 = (parser.copyWord p).map fun r => (r.1.length, r.2) :=
  (parseArgs_iff [] (by decide)).mpr rfl

/-- `X '-a`: the quote is open, both passes step over the NUL. -/
theorem not_parseArgs : ¬ ∀ (argv : List (List UInt8)) (s : List UInt8), (0 : UInt8) ∉ s →
    (∃ l, parseArgs argv s = some (argv ++ l) ∧ ∀ l', Line s l' ↔ l' = l) ∧
      ∀ p, p <:+ s ++ [0] → parser.countWord p 0 = (parser.copyWord p).map fun r => (r.1.length, r.2) := by
  intro h
  obtain ⟨⟨l, hl, _⟩, _⟩ := h [] [88, 32, 39, 45, 97] (by decide)
  rcases line_cases (s := [88, 32, 39, 45, 97]) (by decide) with ⟨hcl, _⟩ | ⟨_, hnone⟩
  · exact absurd hcl (by decide)
  · rw [parseArgs, hnone] at hl
    cases hl

end Kdm.Args
