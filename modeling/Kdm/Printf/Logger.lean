import Kdm.Printf.Quotes
import Kdm.Lib.Lines
import Mathlib.Data.List.Induction

/-!
# The log

`logger` of `printf.c` collects what `doPrint` puts out in a buffer, and writes it line by line, each with
the time, the program and the type of the message in front.  The buffer grows; without memory it is one
of fixed size, and a line that is longer is written in parts.

* `outCh_OCL`, `flush_OCL` — the buffer.
* `Logged` — what has been written, and what is in the buffer.

Principal results: `logger_complete`, nothing is lost or put in another order, whenever memory runs out;
`logger_in_bounds`; `log_unforgeable`, strings that are quoted start no line of their own.

Without syslog.  `Realloc` and the time are parameters, numbered by the calls.
-/

namespace Kdm.Printf

open Lines

/-- `sizeof(lmbuf)`. -/
def LMBUF : Nat := 128

/-- The buffer, and what has been written: `lm` tells that `buf` is `lmbuf`, `buf` has `clen` characters;
`calls` and `lines` count the calls of `Realloc` and of `logTime`. -/
structure OCLBuf where
  buf : Text
  blen : Nat
  lm : Bool
  calls : Nat
  lines : Nat
  writes : List Text

def flush_OCL (b : OCLBuf) : OCLBuf :=
  if b.buf = [] then b else { b with buf := [], writes := b.writes ++ [b.buf ++ [NL]] }

/-- A fixed buffer that is full is given up. -/
def leaveLm (b : OCLBuf) : OCLBuf := if b.lm then { flush_OCL b with lm := false, blen := 0 } else b

/-- There is no room for another character and the end of the line. -/
def growBuf (realloc : Nat → Bool) (b : OCLBuf) : OCLBuf :=
  let b := leaveLm b
  if realloc b.calls then { b with calls := b.calls + 1, blen := b.blen * 3 / 2 + 128 }
  else { flush_OCL b with calls := b.calls + 1, lm := true, blen := LMBUF }

/-- What is in front of a line. -/
def startLine (front : Nat → Text) (b : OCLBuf) : OCLBuf :=
  if b.buf = [] then { b with buf := front b.lines, lines := b.lines + 1 } else b

def outCh_OCL (realloc : Nat → Bool) (front : Nat → Text) (b : OCLBuf) (c : UInt8) : OCLBuf :=
  if c = NL then flush_OCL b
  else
    let b := if b.blen ≤ b.buf.length + 1 then growBuf realloc b else b
    let b := startLine front b
    { b with buf := b.buf ++ [c] }

def OCLBuf.start : OCLBuf := ⟨[], 0, false, 0, 0, []⟩

/-- All characters of a message. -/
def putLog (realloc : Nat → Bool) (front : Nat → Text) (text : Text) (b : OCLBuf) : OCLBuf :=
  text.foldl (outCh_OCL realloc front) b

/-- The lines that are written for a message; what follows the last end of a line is not. -/
def logger (realloc : Nat → Bool) (front : Nat → Text) (error fmt : Text) (args : List Arg) :
    Option (List Text) :=
  (doPrint error fmt args).map fun text => (putLog realloc front text .start).writes

/-! ## What is written -/

/-- Parts of lines, each written as a line of its own. -/
def written (front : Nat → Text) (parts : List Text) : List Text :=
  parts.mapIdx fun i c => front i ++ c ++ [NL]

/-- What the buffer holds: nothing, or the beginning of a part. -/
def Holds (front : Nat → Text) (b : OCLBuf) (n : Nat) (cur : Text) : Prop :=
  if cur = [] then b.buf = [] ∧ b.lines = n else b.buf = front n ++ cur ∧ b.lines = n + 1

/-- The text so far: the parts of each line are written in their order, `cs` are those of the line that is
not at its end yet, and `cur` is what the buffer has of it. -/
structure Logged (front : Nat → Text) (text : Text) (b : OCLBuf) (css : List (List Text))
    (cs : List Text) (cur : Text) : Prop where
  lines : css.map List.flatten = segments NL text
  rest : cs.flatten ++ cur = remainder NL text
  writes : b.writes = written front (css.flatten ++ cs)
  parts : ∀ c ∈ css.flatten ++ cs, c ≠ []
  buf : Holds front b (css.flatten ++ cs).length cur

variable {front : Nat → Text} {realloc : Nat → Bool} {text cur : Text} {b : OCLBuf}
  {css : List (List Text)} {cs : List Text} {c : UInt8}

theorem written_snoc (parts : List Text) (c : Text) :
    written front (parts ++ [c]) = written front parts ++ [front parts.length ++ c ++ [NL]] := by
  simp [written, List.mapIdx_append]

theorem Logged.start : Logged front [] .start [] [] [] :=
  ⟨rfl, rfl, rfl, nofun, by simp [Holds, OCLBuf.start]⟩

/-- What is in the buffer is written. -/
theorem Logged.flush (h : Logged front text b css cs cur) :
    ∃ cs', Logged front text (flush_OCL b) css cs' [] ∧ (flush_OCL b).buf = [] := by
  have hb := h.buf
  unfold Holds at hb
  by_cases hc : cur = []
  · rw [if_pos hc] at hb
    have hsame : flush_OCL b = b := if_pos hb.1
    rw [hsame]
    exact ⟨cs, hc ▸ h, hb.1⟩
  · rw [if_neg hc] at hb
    have hne : b.buf ≠ [] := by simp [hb.1, hc]
    have hflush : flush_OCL b = { b with buf := [], writes := b.writes ++ [b.buf ++ [NL]] } :=
      if_neg hne
    rw [hflush]
    refine ⟨cs ++ [cur], ⟨h.lines, ?_, ?_, ?_, ?_⟩, rfl⟩
    · simpa using h.rest
    · rw [← List.append_assoc, written_snoc, h.writes, hb.1]
    · intro d hd
      rw [← List.append_assoc, List.mem_append, List.mem_singleton] at hd
      obtain hd | rfl := hd
      · exact h.parts d hd
      · exact hc
    · simp only [Holds, if_true]
      refine ⟨trivial, ?_⟩
      have hlen : (css.flatten ++ cs ++ [cur]).length = (css.flatten ++ cs).length + 1 :=
        List.length_append
      rw [hb.2, ← List.append_assoc, hlen]

/-- The size of the buffer plays no part. -/
theorem Logged.resize (h : Logged front text b css cs cur) {b' : OCLBuf} (hbuf : b'.buf = b.buf)
    (hl : b'.lines = b.lines) (hw : b'.writes = b.writes) : Logged front text b' css cs cur := by
  refine ⟨h.lines, h.rest, hw.trans h.writes, h.parts, ?_⟩
  unfold Holds
  rw [hbuf, hl]
  exact h.buf

theorem Logged.leaveLm (h : Logged front text b css cs cur) :
    ∃ cs' cur', Logged front text (leaveLm b) css cs' cur' := by
  unfold Printf.leaveLm
  split
  · obtain ⟨cs', h', -⟩ := h.flush
    exact ⟨cs', [], h'.resize rfl rfl rfl⟩
  · exact ⟨cs, cur, h⟩

theorem Logged.growBuf (h : Logged front text b css cs cur) (realloc : Nat → Bool) :
    ∃ cs' cur', Logged front text (growBuf realloc b) css cs' cur' := by
  obtain ⟨cs', cur', h'⟩ := h.leaveLm
  unfold Printf.growBuf
  dsimp only
  split
  · exact ⟨cs', cur', h'.resize rfl rfl rfl⟩
  · obtain ⟨cs'', h'', -⟩ := h'.flush
    exact ⟨cs'', [], h''.resize rfl rfl rfl⟩

/-- A character that does not end the line. -/
theorem Logged.put (h : Logged front text b css cs cur) (hc : c ≠ NL) :
    Logged front (text ++ [c]) { startLine front b with buf := (startLine front b).buf ++ [c] } css cs
      (cur ++ [c]) := by
  have hmem : NL ∉ [c] := by simpa using fun he => hc he.symm
  have hb := h.buf
  unfold Holds at hb
  refine ⟨?_, ?_, ?_, h.parts, ?_⟩
  · rw [segments_append_of_not_mem hmem]
    exact h.lines
  · have hrem : NL ∉ remainder NL text ++ [c] := by
      rw [List.mem_append, not_or]
      exact ⟨not_mem_remainder NL text, hmem⟩
    rw [remainder_append, remainder_of_not_mem hrem, ← h.rest, List.append_assoc]
  · unfold startLine
    split
    · exact h.writes
    · exact h.writes
  · unfold Holds
    rw [if_neg (by simp)]
    unfold startLine
    by_cases hcur : cur = []
    · rw [if_pos hcur] at hb
      rw [if_pos hb.1]
      subst hcur
      exact ⟨by simp [hb.2], by simp [hb.2]⟩
    · rw [if_neg hcur] at hb
      have hne : b.buf ≠ [] := by simp [hb.1, hcur]
      rw [if_neg hne]
      exact ⟨by simp [hb.1], hb.2⟩

/-- One character. -/
theorem Logged.outCh (h : Logged front text b css cs cur) (c : UInt8) :
    ∃ css' cs' cur', Logged front (text ++ [c]) (outCh_OCL realloc front b c) css' cs' cur' := by
  unfold outCh_OCL
  split
  · rename_i hc
    subst hc
    obtain ⟨cs', h', -⟩ := h.flush
    refine ⟨css ++ [cs'], [], [], ?_, ?_, ?_, ?_, ?_⟩
    · have hrest := h'.rest
      rw [List.append_nil] at hrest
      rw [List.map_append, h'.lines, segments_append,
        segments_cons_append (not_mem_remainder NL text), List.map_singleton, hrest]
      rfl
    · rw [remainder_append_cons]
      rfl
    · simpa using h'.writes
    · simpa using h'.parts
    · simpa [Holds] using h'.buf
  · rename_i hc
    dsimp only
    split
    · obtain ⟨cs', cur', h'⟩ := h.growBuf realloc
      exact ⟨css, cs', cur' ++ [c], h'.put hc⟩
    · exact ⟨css, cs, cur ++ [c], h.put hc⟩

theorem logged_putLog (realloc : Nat → Bool) (front : Nat → Text) (text : Text) : ∃ css cs cur,
    Logged front text (putLog realloc front text .start) css cs cur := by
  induction text using List.reverseRecOn with
  | nil => exact ⟨[], [], [], Logged.start⟩
  | append_singleton text c ih =>
    obtain ⟨css, cs, cur, h⟩ := ih
    unfold putLog
    rw [List.foldl_append]
    exact h.outCh c

/-- **Nothing is lost, and nothing gets out of order**: the lines of the message are written one after the
other, each in parts that make it up, whenever there is no memory for the buffer; only what follows the
last end of a line may be missing. -/
theorem logger_complete {error fmt : Text} {args : List Arg} {lines : List Text}
    (h : logger realloc front error fmt args = some lines) :
    ∃ (text : Text) (css : List (List Text)) (cs : List Text),
      doPrint error fmt args = some text ∧ lines = written front (css.flatten ++ cs) ∧
      css.map List.flatten = segments NL text ∧ cs.flatten <+: remainder NL text ∧
      ∀ part ∈ css.flatten ++ cs, part ≠ [] := by
  obtain ⟨text, ht, rfl⟩ := Option.map_eq_some_iff.mp h
  obtain ⟨css, cs, cur, hl⟩ := logged_putLog realloc front text
  exact ⟨text, css, cs, ht, hl.writes, hl.lines, ⟨cur, hl.rest⟩, hl.parts⟩

/-- A line that is longer than `lmbuf`, without memory. -/
theorem logger_complete_short : ∃ (text : Text) (css : List (List Text)) (cs : List Text),
    doPrint [] (str "%s\n") [.str (some (List.replicate 150 (chr 'x')))] = some text ∧
      [str "kdm: " ++ List.replicate 122 (chr 'x') ++ [NL],
        str "kdm: " ++ List.replicate 28 (chr 'x') ++ [NL]] =
        written (fun _ => str "kdm: ") (css.flatten ++ cs) ∧
      css.map List.flatten = segments NL text ∧ cs.flatten <+: remainder NL text ∧
      ∀ part ∈ css.flatten ++ cs, part ≠ [] :=
  logger_complete (show logger (fun _ => false) _ [] (str "%s\n")
    [.str (some (List.replicate 150 (chr 'x')))] = _ by decide +kernel)

/-! ## The size of the buffer -/

/-- There is room for the end of the line. -/
def InBounds (b : OCLBuf) : Prop :=
  (b.blen = 0 ∧ b.buf = []) ∨ (LMBUF ≤ b.blen ∧ b.buf.length + 1 ≤ b.blen)

theorem flush_OCL_buf (b : OCLBuf) : (flush_OCL b).buf = [] ∧ (flush_OCL b).blen = b.blen := by
  unfold flush_OCL
  split
  · exact ⟨‹_›, rfl⟩
  · exact ⟨rfl, rfl⟩

theorem InBounds.flush (h : InBounds b) : InBounds (flush_OCL b) := by
  obtain ⟨hbuf, hlen⟩ := flush_OCL_buf b
  unfold InBounds at h ⊢
  rw [hbuf, hlen]
  unfold LMBUF at h ⊢
  simp only [List.length_nil, and_true]
  omega

/-- Behind `Realloc` there is room for another character. -/
theorem InBounds.growBuf (h : InBounds b) (realloc : Nat → Bool) :
    LMBUF ≤ (growBuf realloc b).blen ∧
      (growBuf realloc b).buf.length + 2 ≤ (growBuf realloc b).blen := by
  have hleave : (leaveLm b).buf.length ≤ (leaveLm b).blen := by
    unfold leaveLm
    split
    · rw [(flush_OCL_buf b).1]
      exact Nat.zero_le _
    · unfold InBounds at h
      obtain ⟨hz, hbuf⟩ | ⟨-, hle⟩ := h
      · simp [hbuf]
      · omega
  unfold Printf.growBuf
  dsimp only
  split
  · dsimp only [LMBUF]
    omega
  · dsimp only
    rw [(flush_OCL_buf _).1]
    exact ⟨Nat.le_refl _, Nat.le_of_ble_eq_true rfl⟩

theorem InBounds.outCh (h : InBounds b) (hfront : ∀ i, (front i).length + 2 ≤ LMBUF) (c : UInt8) :
    InBounds (outCh_OCL realloc front b c) := by
  unfold outCh_OCL
  split
  · exact h.flush
  · dsimp only
    have hroom : ∀ b' : OCLBuf, LMBUF ≤ b'.blen → b'.buf.length + 2 ≤ b'.blen →
        InBounds { startLine front b' with buf := (startLine front b').buf ++ [c] } := by
      intro b' hle hlen
      refine Or.inr ?_
      unfold startLine
      split
      · have := hfront b'.lines
        refine ⟨hle, ?_⟩
        rw [List.length_append, List.length_singleton]
        dsimp only
        omega
      · refine ⟨hle, ?_⟩
        rw [List.length_append, List.length_singleton]
        exact hlen
    split
    · have hg := h.growBuf realloc
      exact hroom _ hg.1 hg.2
    · rename_i hfull
      obtain ⟨hz, hbuf⟩ | ⟨hle, -⟩ := h
      · rw [hz] at hfull
        exact absurd (Nat.zero_le _) hfull
      · exact hroom b hle (by omega)

/-- **The buffer is never overrun**, the fixed one neither, where the front of a line is not too long. -/
theorem logger_in_bounds (hfront : ∀ i, (front i).length + 2 ≤ LMBUF) (text : Text) :
    InBounds (putLog realloc front text .start) := by
  induction text using List.reverseRecOn with
  | nil => exact Or.inl ⟨rfl, rfl⟩
  | append_singleton text c ih =>
    unfold putLog
    rw [List.foldl_append]
    exact ih.outCh hfront c

theorem logger_in_bounds_short : InBounds (putLog (fun _ => false) (fun _ => str "kdm: ")
    (str "a message\n") .start) := logger_in_bounds (fun _ => by decide) _

/-! ## Quoted strings in the log -/

theorem count_filter_unprintable (s : Text) : (s.filter (¬ Printable ·)).count NL = s.count NL :=
  List.count_filter (by decide)

/-- **Nobody forges a line**: where the strings of a message are quoted, and the ends of lines are the only
control characters of its format, each part that is written is printable, and the message has as many
lines as its format. -/
theorem log_unforgeable {error fmt : Text} {args : List Arg} {lines : List Text}
    (hg : ∀ p ∈ parse fmt, p.Guarded)
    (hnl : ∀ ch ∈ literals (parse fmt), ¬ Printable ch → ch = NL)
    (h : logger realloc front error fmt args = some lines) :
    ∃ (css : List (List Text)) (cs : List Text),
      lines = written front (css.flatten ++ cs) ∧ css.length = (literals (parse fmt)).count NL ∧
      ∀ part ∈ css.flatten ++ cs, part ≠ [] ∧ ∀ b ∈ part, Printable b := by
  obtain ⟨text, ht, rfl⟩ := Option.map_eq_some_iff.mp h
  obtain ⟨css, cs, cur, hl⟩ := logged_putLog realloc front text
  have hcs : cs.flatten <+: remainder NL text := ⟨cur, hl.rest⟩
  have hsame := doPrint_unprintable hg ht
  refine ⟨css, cs, hl.writes, ?_, fun part hp => ⟨hl.parts part hp, fun b hb => ?_⟩⟩
  · rw [← count_filter_unprintable, ← hsame, count_filter_unprintable, ← length_segments, ← hl.lines,
      List.length_map]
  · -- the byte is one of the text, and does not end a line
    have hmem : b ∈ text ∧ b ≠ NL := by
      obtain hp | hp := List.mem_append.mp hp
      · obtain ⟨ps, hps, hin⟩ := List.mem_flatten.mp hp
        have hseg : ps.flatten ∈ segments NL text := hl.lines ▸ List.mem_map_of_mem hps
        have hbf : b ∈ ps.flatten := List.mem_flatten.mpr ⟨part, hin, hb⟩
        refine ⟨mem_of_mem_segments hseg hbf, fun he => ?_⟩
        exact not_mem_of_mem_segments hseg (he ▸ hbf)
      · have hbr : b ∈ remainder NL text := hcs.subset (List.mem_flatten.mpr ⟨part, hp, hb⟩)
        exact ⟨mem_of_mem_remainder hbr, fun he => not_mem_remainder NL text (he ▸ hbr)⟩
    by_contra hbad
    have hlit : b ∈ (literals (parse fmt)).filter (¬ Printable ·) := by
      rw [← hsame]
      exact List.mem_filter.mpr ⟨hmem.1, by simpa using hbad⟩
    exact hmem.2 (hnl b (List.mem_filter.mp hlit).1 hbad)

/-- Somebody calls himself `a`, and begins another line. -/
theorem log_unforgeable_newline : ∃ (css : List (List Text)) (cs : List Text),
    [str "kdm: user \"a\\nkdm: b\"\n"] = written (fun _ => str "kdm: ") (css.flatten ++ cs) ∧
      css.length = (literals (parse (str "user %\"s\n"))).count NL ∧
      ∀ part ∈ css.flatten ++ cs, part ≠ [] ∧ ∀ b ∈ part, Printable b :=
  log_unforgeable (by decide +kernel) (by decide +kernel)
    (show logger (fun _ => true) _ [] _ [.str (some (str "a\nkdm: b"))] = _ by decide +kernel)

end Kdm.Printf
