import Kdm.Xaccess.InPlace

/-!
# What the words should be

The reference for `readWord`: blanks separate words, `#` begins a comment up to the end of the line,
an entry ends with its line, and a backslash quotes the next character, or continues the entry on the
next line.

* `reference` — the words and the line ends of a file.
* `scanned` — the same for the code.
* `deliver` — a call, which stops at a line end or passes it, according to its mode.
* `Regular` — the files that the code reads as it should.

Principal result: `tokenizer_law_iff`.
-/

namespace Kdm.Xaccess

open Ipc

/-! ## Words and line ends -/

inductive Token where
  | word (w : Bytes)
  | eol
  deriving DecidableEq, Repr

/-- The word that was begun, if one was. -/
def flush (w : Bytes) : List Token := if w = [] then [] else [.word w]

/-- The reference, inside a word of which `w` was read. -/
def reference (w : Bytes) : Mode → Bytes → List Token
  | _, [] => flush w
  | .comment, c :: t =>
    if c = 10 then flush w ++ .eol :: reference [] .plain t else reference w .comment t
  | .quoted, c :: t =>
    if c = 10 then flush w ++ reference [] .plain t else reference (w ++ [c]) .plain t
  | .plain, c :: t =>
    if c = 10 then flush w ++ .eol :: reference [] .plain t
    else if c = 32 ∨ c = 9 then flush w ++ reference [] .plain t
    else if c = 35 then reference w .comment t
    else if c = 92 then reference w .quoted t
    else reference (w ++ [c]) .plain t

/-- The code: a quoted blank is a blank, a quoted line end behind a word is a line end, and a zero
counts as one. -/
def scanned (w : Bytes) (mode : Mode) : Bytes → List Token
  | [] => flush w
  | c :: t =>
    if mode = .comment ∧ c ≠ 10 then scanned w .comment t
    else if c = 35 ∧ mode = .plain then scanned w .comment t
    else if c = 0 ∨ c = 10 then
      if mode = .quoted ∧ w = [] then scanned [] .plain t
      else flush w ++ .eol :: scanned [] .plain t
    else if c = 32 ∨ c = 9 then flush w ++ scanned [] .plain t
    else if c = 92 ∧ mode ≠ .quoted then scanned w .quoted t
    else scanned (w ++ [c]) .plain t

/-! ## Calls -/

/-- A call: at a line end it returns nothing, or goes on to the next word. -/
def deliver (EOFatEOL : Bool) : List Token → Option Bytes × List Token
  | [] => (none, [])
  | .word w :: ts => (some w, ts)
  | .eol :: ts => if EOFatEOL then (none, .eol :: ts) else deliver EOFatEOL ts

/-- One call after the other, in the given modes. -/
def deliverAll : List Bool → List Token → List (Option Bytes)
  | [], _ => []
  | m :: ms, ts => (deliver m ts).1 :: deliverAll ms (deliver m ts).2

/-- The calls of the code. -/
def readCalls : List Bool → File → Option (List (Option Bytes))
  | [], _ => some []
  | m :: ms, f =>
    (readWordAt m f).bind fun out =>
      (readCalls ms out.2).map fun words => out.1.map out.2.text :: words

theorem deliver_flush (eol : Bool) (w : CStr) (ts : List Token) (h : w.1 ≠ []) :
    deliver eol (flush w.1 ++ ts) = (some w.1, ts) := by
  rw [flush, if_neg h]
  rfl

theorem scanned_lineEnd {c : UInt8} (hc : LineEnd c) (t : Bytes) :
    scanned [] .plain (c :: t) = .eol :: scanned [] .plain t := by
  have hc' : c = 0 ∨ c = 10 := hc
  rw [scanned, if_neg (by simp), if_neg (by rcases hc with rfl | rfl <;> decide), if_pos hc',
    if_neg (by simp)]
  rfl

/-- A call of the reader of lists is a call on the tokens. -/
theorem readWordFrom_deliver (eol : Bool) (file : Bytes) (w : CStr) (mode : Mode) :
    deliver eol (scanned w.1 mode file) =
      ((readWordFrom eol w mode file).1.map (·.1),
        scanned [] .plain (readWordFrom eol w mode file).2) := by
  induction file generalizing w mode with
  | nil =>
    unfold readWordFrom scanned endOfWord
    by_cases hw : w.1 = []
    · rw [hw]
      rfl
    · rw [if_neg hw, ← List.append_nil (flush w.1), deliver_flush eol w [] hw]
      rfl
  | cons c t ih =>
    rw [scanned, readWordFrom]
    by_cases h1 : mode = .comment ∧ c ≠ 10
    · rw [if_pos h1, if_pos h1]
      exact ih w .comment
    rw [if_neg h1, if_neg h1]
    by_cases h2 : c = 35 ∧ mode = .plain
    · rw [if_pos h2, if_pos h2]
      exact ih w .comment
    rw [if_neg h2, if_neg h2]
    have hempty := ih emptyWord .plain
    by_cases h3 : c = 0 ∨ c = 10
    · rw [if_pos h3, dif_pos h3]
      -- the line end is left for the next call
      have hleft := scanned_lineEnd h3 t
      by_cases hw : w.1 = []
      · rw [hw, if_neg (not_not_intro rfl)]
        by_cases hq : mode = .quoted
        · rw [if_pos ⟨hq, rfl⟩, if_neg fun h => h.2 hq]
          exact hempty
        · rw [if_neg fun h => hq h.1]
          cases eol with
          | false =>
            rw [if_neg (by simp)]
            exact hempty
          | true =>
            rw [if_pos ⟨rfl, hq⟩, hleft, endOfWord, if_pos hw]
            rfl
      · rw [if_neg fun h => hw h.2, deliver_flush eol w _ hw, if_pos hw, endOfWord, if_neg hw, ite_self,
          hleft]
        rfl
    rw [if_neg h3, dif_neg h3]
    by_cases h6 : c = 32 ∨ c = 9
    · rw [if_pos h6, if_pos h6]
      by_cases hw : w.1 = []
      · rw [if_neg (not_not_intro hw), hw]
        exact hempty
      · rw [if_pos hw, deliver_flush eol w _ hw]
        rfl
    rw [if_neg h6, if_neg h6]
    by_cases h7 : c = 92 ∧ mode ≠ .quoted
    · rw [if_pos h7, if_pos h7]
      exact ih w .quoted
    rw [if_neg h7, if_neg h7]
    exact ih (CStr.push w c fun h0 => h3 (.inl h0)) .plain

/-- A line end that has become a zero is still one. -/
theorem scanned_sameRest {r r' : Bytes} (h : SameRest r r') : scanned [] .plain r = scanned [] .plain r' := by
  rcases h with rfl | ⟨c, t, hc, rfl, rfl⟩
  · rfl
  · rw [scanned_lineEnd (.inl rfl), scanned_lineEnd hc]

/-- **No call fails, and the calls deliver the tokens that the code scans.** -/
theorem readCalls_eq (modes : List Bool) {f : File} (hok : f.Ok) :
    readCalls modes f = some (deliverAll modes (scanned [] .plain f.rest)) := by
  induction modes generalizing f with
  | nil => rfl
  | cons m ms ih =>
    obtain ⟨out, hout, hd⟩ := readWordAt_spec m hok
    have hcall : deliver m (scanned [] .plain f.rest) =
        (out.1.map out.2.text, scanned [] .plain out.2.rest) := by
      rw [hd.word, scanned_sameRest hd.rest]
      exact readWordFrom_deliver m f.rest emptyWord .plain
    rw [readCalls, hout, Option.bind_some, ih hd.ok, deliverAll, hcall]
    rfl

/-! ## What calls can tell apart -/

/-- The words, each with whether a line ended right before it. -/
def entries (b : Bool) : List Token → List (Bool × Bytes)
  | [] => []
  | .eol :: ts => entries true ts
  | .word w :: ts => (b, w) :: entries false ts

/-- A call on these. -/
def deliverEntry (EOFatEOL : Bool) : List (Bool × Bytes) → Option Bytes × List (Bool × Bytes)
  | [] => (none, [])
  | (b, w) :: es => if EOFatEOL && b then (none, (b, w) :: es) else (some w, es)

/-- Behind a line end the first word is marked. -/
theorem entries_true (ts : List Token) : entries true ts = [] ∨ ∃ w es, entries true ts = (true, w) :: es := by
  induction ts with
  | nil => exact .inl rfl
  | cons t ts ih =>
    cases t with
    | word w => exact .inr ⟨w, _, rfl⟩
    | eol => exact ih

theorem deliver_false (b : Bool) (ts : List Token) :
    ((deliver false ts).1, entries false (deliver false ts).2) = deliverEntry false (entries b ts) := by
  induction ts generalizing b with
  | nil => rfl
  | cons t ts ih =>
    cases t with
    | word w => rfl
    | eol => exact ih true

theorem deliver_true (ts : List Token) :
    ((deliver true ts).1, entries false (deliver true ts).2) = deliverEntry true (entries false ts) := by
  cases ts with
  | nil => rfl
  | cons t ts =>
    cases t with
    | word w => rfl
    | eol =>
      show (none, entries true ts) = deliverEntry true (entries true ts)
      rcases entries_true ts with h | ⟨w, es, h⟩
      · rw [h]
        rfl
      · rw [h]
        rfl

theorem deliver_entries (m : Bool) (ts : List Token) :
    ((deliver m ts).1, entries false (deliver m ts).2) = deliverEntry m (entries false ts) := by
  cases m
  · exact deliver_false false ts
  · exact deliver_true ts

/-- One call after the other. -/
def deliverEntries : List Bool → List (Bool × Bytes) → List (Option Bytes)
  | [], _ => []
  | m :: ms, es => (deliverEntry m es).1 :: deliverEntries ms (deliverEntry m es).2

theorem deliverAll_eq (modes : List Bool) (ts : List Token) :
    deliverAll modes ts = deliverEntries modes (entries false ts) := by
  induction modes generalizing ts with
  | nil => rfl
  | cons m ms ih => rw [deliverAll, deliverEntries, ← deliver_entries, ih]

/-- Calls in all modes tell different entries apart. -/
theorem eq_of_deliverEntries {es es' : List (Bool × Bytes)}
    (h : ∀ modes, deliverEntries modes es = deliverEntries modes es') : es = es' := by
  induction es generalizing es' with
  | nil =>
    cases es' with
    | nil => rfl
    | cons e es' =>
      have hf := h [false]
      cases hf
  | cons e es ih =>
    obtain ⟨b, w⟩ := e
    cases es' with
    | nil =>
      have hf := h [false]
      cases hf
    | cons e' es' =>
      obtain ⟨b', w'⟩ := e'
      have hw : w = w' := by
        have hf := h [false]
        cases hf
        rfl
      have hb : b = b' := by
        have ht := h [true]
        cases b <;> cases b' <;> first | rfl | cases ht
      have hes : es = es' := ih fun modes => (List.cons.inj (h (false :: modes))).2
      rw [hw, hb, hes]

/-- **The calls cannot tell two files apart exactly if these have the same words, and the same of
them begin a line.** -/
theorem deliverAll_eq_iff (s t : List Token) :
    (∀ modes, deliverAll modes s = deliverAll modes t) ↔ entries false s = entries false t := by
  simp only [deliverAll_eq]
  exact ⟨eq_of_deliverEntries, fun h modes => by rw [h]⟩

/-! ## The files that are read right -/

/-- The entry goes on with another word. -/
def GoesOn (t : Bytes) : Prop := ∃ w ts, reference [] .plain t = .word w :: ts

/-- No zero outside a comment, no blank behind a backslash, and no word with a backslash and a
newline directly behind it whose entry goes on with another word.  `begun` says whether a word was
begun. -/
def Regular (begun : Bool) : Mode → Bytes → Prop
  | _, [] => True
  | .comment, c :: t => if c = 10 then Regular false .plain t else Regular begun .comment t
  | .quoted, c :: t =>
    if c = 10 then (begun = true → ¬ GoesOn t) ∧ Regular false .plain t
    else (c ≠ 0 ∧ c ≠ 32 ∧ c ≠ 9) ∧ Regular true .plain t
  | .plain, c :: t =>
    if c = 10 then Regular false .plain t
    else if c = 32 ∨ c = 9 then Regular false .plain t
    else if c = 35 then Regular begun .comment t
    else if c = 92 then Regular begun .quoted t
    else c ≠ 0 ∧ Regular true .plain t

/-- Characters that the code never puts into a word. -/
def Separator (c : UInt8) : Prop := c = 0 ∨ c = 32 ∨ c = 9

theorem entries_flush (w : Bytes) (ts : List Token) (b : Bool) :
    entries b (flush w ++ ts) = if w = [] then entries b ts else (b, w) :: entries false ts := by
  unfold flush
  split <;> rfl

/-- The code never puts a separator into a word. -/
theorem scanned_words {w : Bytes} (hw : ∀ c ∈ w, ¬ Separator c) (mode : Mode) (file : Bytes) (b : Bool) :
    ∀ e ∈ entries b (scanned w mode file), ∀ c ∈ e.2, ¬ Separator c := by
  induction file generalizing w mode b with
  | nil =>
    rw [scanned, ← List.append_nil (flush w), entries_flush]
    split
    · exact fun e he => absurd he List.not_mem_nil
    · intro e he
      rw [List.mem_singleton.mp he]
      exact hw
  | cons x t ih =>
    have hnil : ∀ c ∈ ([] : Bytes), ¬ Separator c := fun c hc => absurd hc List.not_mem_nil
    -- what follows a word
    have hflush : ∀ ts, (∀ b, ∀ e ∈ entries b ts, ∀ c ∈ e.2, ¬ Separator c) →
        ∀ e ∈ entries b (flush w ++ ts), ∀ c ∈ e.2, ¬ Separator c := by
      intro ts hts
      rw [entries_flush]
      split
      · exact hts b
      · intro e he
        rcases List.mem_cons.mp he with rfl | he
        · exact hw
        · exact hts false e he
    rw [scanned]
    by_cases h1 : mode = .comment ∧ x ≠ 10
    · rw [if_pos h1]
      exact ih hw .comment b
    rw [if_neg h1]
    by_cases h2 : x = 35 ∧ mode = .plain
    · rw [if_pos h2]
      exact ih hw .comment b
    rw [if_neg h2]
    by_cases h3 : x = 0 ∨ x = 10
    · rw [if_pos h3]
      split
      · exact ih hnil .plain b
      · exact hflush _ fun b => ih hnil .plain true
    rw [if_neg h3]
    by_cases h4 : x = 32 ∨ x = 9
    · rw [if_pos h4]
      exact hflush _ fun b => ih hnil .plain b
    rw [if_neg h4]
    by_cases h5 : x = 92 ∧ mode ≠ .quoted
    · rw [if_pos h5]
      exact ih hw .quoted b
    rw [if_neg h5]
    refine ih ?_ .plain b
    intro c hc
    rcases List.mem_append.mp hc with hc | hc
    · exact hw c hc
    · rw [List.mem_singleton.mp hc]
      rintro (h | h)
      · exact h3 (.inl h)
      · exact h4 h

/-- The reference goes on with the word that was begun. -/
theorem reference_head {w : Bytes} (hw : w ≠ []) (mode : Mode) (file : Bytes) (b : Bool) :
    ∃ x es, entries b (reference w mode file) = (b, w ++ x) :: es := by
  have hflush (ts : List Token) : ∃ x es, entries b (flush w ++ ts) = (b, w ++ x) :: es := by
    rw [entries_flush, if_neg hw]
    exact ⟨[], _, by rw [List.append_nil]⟩
  induction file generalizing w mode with
  | nil =>
    rw [reference, ← List.append_nil (flush w)]
    exact hflush []
  | cons c t ih =>
    have hpush : ∃ x es, entries b (reference (w ++ [c]) .plain t) = (b, w ++ x) :: es := by
      have hne : w ++ [c] ≠ [] := by simp
      obtain ⟨x, es, h⟩ := ih hne .plain fun ts => by
        rw [entries_flush, if_neg hne]
        exact ⟨[], _, by rw [List.append_nil]⟩
      exact ⟨c :: x, es, by rw [h, List.append_assoc]; rfl⟩
    cases mode <;> rw [reference]
    · split
      · exact hflush _
      split
      · exact hflush _
      split
      · exact ih hw .comment hflush
      split
      · exact ih hw .quoted hflush
      · exact hpush
    · split
      · exact hflush _
      · exact hpush
    · split
      · exact hflush _
      · exact ih hw .comment hflush

/-- A separator that the reference puts into a word makes the difference. -/
theorem ne_of_separator {c : UInt8} (hc : Separator c) {w : Bytes} {b : Bool} {ts : List Token}
    (hts : ∀ e ∈ entries b ts, ∀ c ∈ e.2, ¬ Separator c) (mode : Mode) (t : Bytes) :
    entries b ts ≠ entries b (reference (w ++ [c]) mode t) := by
  intro he
  obtain ⟨x, es, h⟩ := reference_head (w := w ++ [c]) (by simp) mode t b
  rw [h] at he
  exact hts (b, w ++ [c] ++ x) (he ▸ List.mem_cons_self) c (by simp) hc

/-- Where the entry does not go on, it does not matter whether it ended. -/
theorem entries_true_iff {ts : List Token} (t : Bytes) :
    entries true ts = entries false (reference [] .plain t) ↔
      ¬ GoesOn t ∧ entries true ts = entries true (reference [] .plain t) := by
  unfold GoesOn
  cases hr : reference [] .plain t with
  | nil => simp [entries]
  | cons x l =>
    cases x with
    | eol => simp [entries]
    | word w =>
      constructor
      · intro h
        rcases entries_true ts with hn | ⟨w', es, hn⟩
        · rw [hn] at h
          cases h
        · rw [hn] at h
          cases h
      · rintro ⟨h, -⟩
        exact absurd ⟨w, l, rfl⟩ h

theorem scanned_plain (w : Bytes) (c : UInt8) (t : Bytes) :
    scanned w .plain (c :: t) =
      if c = 35 then scanned w .comment t
      else if c = 0 ∨ c = 10 then flush w ++ .eol :: scanned [] .plain t
      else if c = 32 ∨ c = 9 then flush w ++ scanned [] .plain t
      else if c = 92 then scanned w .quoted t
      else scanned (w ++ [c]) .plain t := by
  simp [scanned]

theorem scanned_quoted (w : Bytes) (c : UInt8) (t : Bytes) :
    scanned w .quoted (c :: t) =
      if c = 0 ∨ c = 10 then
        if w = [] then scanned [] .plain t else flush w ++ .eol :: scanned [] .plain t
      else if c = 32 ∨ c = 9 then flush w ++ scanned [] .plain t
      else scanned (w ++ [c]) .plain t := by
  simp [scanned]

theorem entries_flush_iff {w : Bytes} {ts ts' : List Token} {b : Bool} {P : Prop}
    (h : ∀ b, entries b ts = entries b ts' ↔ P) :
    entries b (flush w ++ ts) = entries b (flush w ++ ts') ↔ P := by
  rw [entries_flush, entries_flush]
  split
  · exact h b
  · rw [List.cons_inj_right]
    exact h false

/-- **The words are the same exactly for the regular files.** -/
theorem entries_iff_regular (file : Bytes) {w : Bytes} (hw : ∀ c ∈ w, ¬ Separator c) (mode : Mode)
    (b : Bool) :
    entries b (scanned w mode file) = entries b (reference w mode file) ↔
      Regular (!w.isEmpty) mode file := by
  induction file generalizing w mode b with
  | nil => simp [scanned, reference, Regular]
  | cons c t ih =>
    have hnil : ∀ c ∈ ([] : Bytes), ¬ Separator c := fun c hc => absurd hc List.not_mem_nil
    have hnext (b : Bool) := ih hnil .plain b
    have hpush (hc : ¬ Separator c) (b : Bool) :
        entries b (scanned (w ++ [c]) .plain t) = entries b (reference (w ++ [c]) .plain t) ↔
          Regular true .plain t := by
      have hwc : ∀ x ∈ w ++ [c], ¬ Separator x := by
        intro x hx
        rcases List.mem_append.mp hx with hx | hx
        · exact hw x hx
        · exact List.mem_singleton.mp hx ▸ hc
      have h := ih hwc .plain b
      rwa [show (!(w ++ [c]).isEmpty) = true by simp] at h
    have hsep : Separator c → ∀ (ts : List Token) (mode' : Mode),
        scanned w mode (c :: t) = ts → entries b ts ≠ entries b (reference (w ++ [c]) mode' t) := by
      rintro hc ts mode' rfl
      exact ne_of_separator hc (scanned_words hw mode (c :: t) b) mode' t
    cases mode with
    | comment =>
      rw [scanned, reference, Regular]
      by_cases h10 : c = 10
      · subst h10
        simp only [ne_eq, not_true, and_false, if_false, if_true, reduceCtorEq, false_and, or_true]
        exact entries_flush_iff fun b => hnext true
      · simp only [h10, ne_eq, not_false_iff, and_true, if_true, if_false]
        exact ih hw .comment b
    | quoted =>
      rw [reference, Regular]
      by_cases h10 : c = 10
      · subst h10
        rw [scanned_quoted, if_pos (.inr rfl), if_pos rfl, if_pos rfl]
        by_cases hwnil : w = []
        · subst hwnil
          rw [if_pos rfl, entries_flush, if_pos rfl, hnext b]
          exact ⟨fun h => ⟨fun hb => (by cases hb), h⟩, fun h => h.2⟩
        · -- the code ends the entry here, the reference goes on
          have hbegun : (!w.isEmpty) = true := by simpa using hwnil
          rw [if_neg hwnil, entries_flush, if_neg hwnil, entries_flush, if_neg hwnil,
            List.cons_inj_right, hbegun]
          show entries true (scanned [] .plain t) = _ ↔ _
          rw [entries_true_iff t, hnext true]
          exact and_congr_left fun _ => ⟨fun h _ => h, fun h => h rfl⟩
      · rw [if_neg h10, if_neg h10]
        by_cases hs : Separator c
        · refine iff_of_false (hsep hs _ .plain rfl) fun h => ?_
          rcases hs with h0 | h32 | h9
          · exact h.1.1 h0
          · exact h.1.2.1 h32
          · exact h.1.2.2 h9
        · have h0 : c ≠ 0 := fun h => hs (.inl h)
          have hblank : ¬ (c = 32 ∨ c = 9) := fun h => hs (.inr h)
          rw [scanned_quoted, if_neg (not_or.mpr ⟨h0, h10⟩), if_neg hblank, hpush hs b]
          exact ⟨fun h => ⟨⟨h0, fun h => hblank (.inl h), fun h => hblank (.inr h)⟩, h⟩, fun h => h.2⟩
    | plain =>
      rw [reference, Regular]
      by_cases h10 : c = 10
      · subst h10
        rw [scanned_plain, if_neg (by decide), if_pos (.inr rfl), if_pos rfl, if_pos rfl]
        exact entries_flush_iff fun b => hnext true
      rw [if_neg h10, if_neg h10]
      by_cases hblank : c = 32 ∨ c = 9
      · have h35 : c ≠ 35 := by rcases hblank with rfl | rfl <;> decide
        have h0 : c ≠ 0 := by rcases hblank with rfl | rfl <;> decide
        rw [if_pos hblank, if_pos hblank, scanned_plain, if_neg h35, if_neg (not_or.mpr ⟨h0, h10⟩),
          if_pos hblank]
        exact entries_flush_iff hnext
      rw [if_neg hblank, if_neg hblank]
      by_cases h35 : c = 35
      · rw [if_pos h35, if_pos h35, scanned_plain, if_pos h35]
        exact ih hw .comment b
      rw [if_neg h35, if_neg h35]
      by_cases h92 : c = 92
      · have h0 : c ≠ 0 := by rw [h92]; decide
        rw [if_pos h92, if_pos h92, scanned_plain, if_neg h35, if_neg (not_or.mpr ⟨h0, h10⟩),
          if_neg hblank, if_pos h92]
        exact ih hw .quoted b
      rw [if_neg h92, if_neg h92]
      by_cases h0 : c = 0
      · exact iff_of_false (hsep (.inl h0) _ .plain rfl) fun h => h.1 h0
      · have hs : ¬ Separator c := fun h => h.elim h0 hblank
        rw [scanned_plain, if_neg h35, if_neg (not_or.mpr ⟨h0, h10⟩), if_neg hblank, if_neg h92,
          hpush hs b]
        exact ⟨fun h => ⟨h0, h⟩, fun h => h.2⟩

/-! ## The law -/

/-- Whatever the modes of the calls, none fails and they deliver the words of the reference. -/
def TokenizerLaw (file : Bytes) : Prop :=
  ∀ modes, readCalls modes (load file) = some (deliverAll modes (reference [] .plain file))

/-- **The tokenizer is right exactly for the regular files.** -/
theorem tokenizer_law_iff (file : Bytes) : TokenizerLaw file ↔ Regular false .plain file := by
  have hcode (modes : List Bool) :
      readCalls modes (load file) = some (deliverAll modes (scanned [] .plain file)) := by
    rw [readCalls_eq modes (File.ok_load file), File.rest_load]
  unfold TokenizerLaw
  simp only [hcode, Option.some.injEq]
  rw [deliverAll_eq_iff]
  exact entries_iff_regular file (fun c hc => absurd hc List.not_mem_nil) .plain false

/-- The entry `a\` with `b` on the next line. -/
theorem not_tokenizer_law : ¬ ∀ file, TokenizerLaw file := by
  intro h
  have hreg : ∀ modes, readCalls modes (load [97, 92, 10, 98]) =
      some (deliverAll modes (reference [] .plain [97, 92, 10, 98])) := h [97, 92, 10, 98]
  have hcode := readCalls_eq [false, true] (File.ok_load [97, 92, 10, 98])
  rw [hreg [false, true], File.rest_load] at hcode
  exact absurd (Option.some.inj hcode) (by decide)

end Kdm.Xaccess
