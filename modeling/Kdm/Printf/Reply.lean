import Kdm.Printf.Quotes
import Kdm.Lib.Lines

/-!
# Texts that are put together, and the replies of the control sockets

`VASPrintf` of `printf.c` collects what `doPrint` puts out in a block that grows.  `fLog` of `ctrl.c` answers
a command with it: a status, a tab, and a message with its special characters quoted.

* `outCh_OCA`, `VASPrintf` — the block; without memory nothing is left of the text, and `Realloc` makes a
  block of no size of it.
* `fLog` — what is sent.

Principal results: `vasprintf_whole`, and `fLog_unambiguous`: a reply is one line, and what it says is read
back, unless there was no memory.
-/

namespace Kdm.Printf

open Escape

/-- The block, `clen` characters of it in use; `blen` is `-1` behind a failure. -/
structure OCABuf where
  buf : Text
  blen : Int
  tlen : Int
  calls : Nat

def outCh_OCA (realloc : Nat → Bool) (b : OCABuf) (c : UInt8) : OCABuf :=
  let b := { b with tlen := b.tlen + 1 }
  if b.blen ≤ b.buf.length then
    if b.blen < 0 then b
    else if realloc b.calls then
      { b with calls := b.calls + 1, blen := b.blen * 3 / 2 + 100, buf := b.buf ++ [c] }
    else { b with calls := b.calls + 1, blen := -1, buf := [] }
  else { b with buf := b.buf ++ [c] }

/-- What a pointer points to, its length, and the number of calls of `Realloc`. -/
structure Made where
  block : Option Text
  tlen : Int
  calls : Nat

/-- `VASPrintf`, for what `doPrint` puts out; `Realloc` was called so many times before.  A null pointer of
no size is made a block of no size. -/
def VASPrintf (realloc : Nat → Bool) (calls : Nat) (text : Text) : Made :=
  let b := (text ++ [0]).foldl (outCh_OCA realloc) ⟨[], 0, -1, calls⟩
  let block := if b.blen < 0 then if realloc b.calls then some [] else none else some b.buf
  ⟨block, b.tlen, b.calls + 1⟩

/-- The string that is in a block; `none` if it has no end there. -/
def cstring (block : Text) : Option Text :=
  if 0 ∈ block then some (block.takeWhile (· ≠ 0)) else none

inductive Sent
  | nothing
  | bytes (s : Text)
  /-- behind the end of a block -/
  | wild
deriving DecidableEq

/-- `"%s\t%\\s\n"`. -/
def REPLY : Text := str "%s\t%\\s\n"

/-- The message is put together first, then the reply. -/
def fLog (realloc : Nat → Bool) (sts msg error : Text) (args : List Arg) : Option Sent :=
  (doPrint error msg args).bind fun text =>
    let fmsg := VASPrintf realloc 0 text
    match fmsg.block with
    | none => some .nothing
    | some block =>
      match cstring block with
      | none => some .wild
      | some s =>
        (doPrint error REPLY [.str (some sts), .str (some s)]).map fun text =>
          let otxt := VASPrintf realloc fmsg.calls text
          match otxt.block with
          | none => .nothing
          | some block => if otxt.tlen ≤ block.length then .bytes (block.take otxt.tlen.toNat) else .wild

/-! ## The block -/

variable {realloc : Nat → Bool}

/-- All of the text is there, or some call of `Realloc` has failed. -/
inductive Holding (realloc : Nat → Bool) (calls : Nat) (text : Text) (b : OCABuf) : Prop
  | all (hbuf : b.buf = text) (hlen : (text.length : Int) ≤ b.blen) (hc : calls ≤ b.calls)
      (hok : ∀ i, calls ≤ i → i < b.calls → realloc i = true)
  | failed (hlen : b.blen = -1) (hc : ∃ i, calls ≤ i ∧ i < b.calls ∧ realloc i = false)

theorem Holding.outCh {calls : Nat} {text : Text} {b : OCABuf} (h : Holding realloc calls text b)
    (c : UInt8) : Holding realloc calls (text ++ [c]) (outCh_OCA realloc b c) := by
  unfold outCh_OCA
  dsimp only
  cases h with
  | all hbuf hlen hc hok =>
    split
    · rename_i hfull
      have hpos : ¬ b.blen < 0 := by omega
      rw [if_neg hpos]
      split
      · rename_i hr
        refine .all (by simp [hbuf]) ?_ (Nat.le_succ_of_le hc) fun i hi hlt => ?_
        · simp only [List.length_append, List.length_singleton]
          rw [hbuf] at hfull
          omega
        · obtain hlt | rfl := Nat.lt_succ_iff_lt_or_eq.mp hlt
          · exact hok i hi hlt
          · exact hr
      · rename_i hr
        exact .failed rfl ⟨b.calls, hc, Nat.lt_succ_self _, by simpa using hr⟩
    · rename_i hroom
      refine .all (by simp [hbuf]) ?_ hc hok
      simp only [List.length_append, List.length_singleton]
      rw [hbuf] at hroom
      omega
  | failed hlen hc =>
    rw [if_pos (by omega), if_pos (by omega)]
    exact .failed hlen hc

theorem tlen_outCh (b : OCABuf) (c : UInt8) : (outCh_OCA realloc b c).tlen = b.tlen + 1 := by
  unfold outCh_OCA
  dsimp only
  split
  · split
    · rfl
    · split
      · rfl
      · rfl
  · rfl

theorem holding_foldl {calls : Nat} {done : Text} (text : Text) {b : OCABuf}
    (h : Holding realloc calls done b) :
    Holding realloc calls (done ++ text) (text.foldl (outCh_OCA realloc) b) ∧
      (text.foldl (outCh_OCA realloc) b).tlen = b.tlen + text.length := by
  induction text generalizing done b with
  | nil => simpa using h
  | cons c text ih =>
    obtain ⟨h1, h2⟩ := ih (h.outCh c)
    refine ⟨by simpa using h1, ?_⟩
    rw [List.foldl_cons, h2, tlen_outCh, List.length_cons]
    omega

/-- **The text is put together whole**, with its length, unless a call of `Realloc` fails before. -/
theorem vasprintf_whole (realloc : Nat → Bool) (calls : Nat) (text : Text) :
    (VASPrintf realloc calls text).tlen = text.length ∧ calls < (VASPrintf realloc calls text).calls ∧
      ((VASPrintf realloc calls text).block = some (text ++ [0]) ∨
        ((VASPrintf realloc calls text).block = none ∨
          (VASPrintf realloc calls text).block = some []) ∧
        ∃ i, calls ≤ i ∧ i < (VASPrintf realloc calls text).calls ∧ realloc i = false) := by
  have hstart : Holding realloc calls [] ⟨[], 0, -1, calls⟩ :=
    .all rfl (by simp) (Nat.le_refl _) fun i hi hlt => absurd hlt (by simpa using hi)
  obtain ⟨h, ht⟩ := holding_foldl (text ++ [0]) hstart
  rw [List.nil_append] at h
  unfold VASPrintf
  dsimp only
  refine ⟨?_, ?_, ?_⟩
  · rw [ht]
    simp only [List.length_append, List.length_singleton]
    omega
  · cases h with
    | all _ _ hc _ => exact Nat.lt_succ_of_le hc
    | failed _ hc =>
      obtain ⟨i, h1, h2, -⟩ := hc
      omega
  · cases h with
    | all hbuf hlen _ _ =>
      refine Or.inl ?_
      rw [if_neg (by omega), hbuf]
    | failed hlen hc =>
      refine Or.inr ⟨?_, ?_⟩
      · rw [if_pos (by omega)]
        split
        · exact Or.inr rfl
        · exact Or.inl rfl
      · obtain ⟨i, h1, h2, h3⟩ := hc
        exact ⟨i, h1, Nat.lt_succ_of_lt h2, h3⟩

/-! ## Replies -/

/-- `'\t'`. -/
def TAB : UInt8 := 9

/-- Reads a reply: the status, and the message. -/
def readReply (reply : Text) : Option (Text × Text) :=
  match reply.dropWhile (· ≠ TAB) with
  | [] => none
  | _ :: rest =>
    match field (· == NL) unescape (rest.length + 1) rest with
    | some (msg, []) => some (reply.takeWhile (· ≠ TAB), msg)
    | _ => none

/-- The flags of `%\s`. -/
def backsl : Flags := { Flags.none with backsl := true }

theorem doPrint_reply (error sts s : Text) :
    doPrint error REPLY [.str (some sts), .str (some s)] =
      some (fmtstr (some sts) .none 0 (-1) ++ TAB :: (fmtstr (some s) backsl 0 (-1) ++ [NL])) := by
  have hparse : parse REPLY = [.conv ⟨.none, .num 0, .num (-1), .start, .int, .s⟩, .lit TAB,
      .conv ⟨backsl, .num 0, .num (-1), .start, .int, .s⟩, .lit NL] := by decide +kernel
  unfold doPrint
  rw [hparse]
  rfl

theorem fmtchars_plain {flags : Flags} (hq : flags.quotes = false) (lastcol curcol : Nat) (s : Text) :
    fmtchars flags lastcol curcol s = s := by
  induction s generalizing curcol with
  | nil => rfl
  | cons ch cs ih => simp [fmtchars, hq, ih]

/-- `%s` without a width. -/
theorem fmtstr_plain {s : Text} (hs : s.length < 2 ^ 32) : fmtstr (some s) .none 0 (-1) = s := by
  have htake : s.take ((-1 : Int) % 2 ^ 32).toNat = s := List.take_of_length_le (by omega)
  simp only [fmtstr, htake]
  rw [fmtchars_plain rfl]
  simp [Flags.none, quote]

theorem fmtstr_backsl {s : Text} (hs : s.length < 2 ^ 32) :
    fmtstr (some s) backsl 0 (-1) = fmtchars backsl (lastcol backsl s) 0 s := by
  have htake : s.take ((-1 : Int) % 2 ^ 32).toNat = s := List.take_of_length_le (by omega)
  simp only [fmtstr, htake]
  simp [backsl, Flags.none, quote]

/-- The reply, as it is meant to be. -/
theorem readReply_reply {sts s : Text} (hsts : TAB ∉ sts) :
    readReply (sts ++ TAB :: (fmtchars backsl (lastcol backsl s) 0 s ++ [NL])) = some (sts, s) := by
  have hall : ∀ b ∈ sts, decide (b ≠ TAB) = true := by
    intro b hb
    rw [decide_eq_true_eq]
    rintro rfl
    exact hsts hb
  have hmarks : Marks backsl (· == NL) := by
    intro b hb
    rw [beq_iff_eq] at hb
    subst hb
    exact Or.inr (by decide)
  have hsp := fmtchars_spells (show backsl.quotes = true from rfl) hmarks (lastcol backsl s) 0 s
  have hfield := field_of_spells hsp (b := NL) (by decide) []
    (n := (fmtchars backsl (lastcol backsl s) 0 s ++ [NL]).length + 1) (by
      have := hsp.length_le
      simp only [List.length_append, List.length_singleton]
      omega)
  unfold readReply
  rw [List.dropWhile_append_of_pos hall, List.takeWhile_append_of_pos hall,
    List.dropWhile_cons_of_neg (by simp), List.takeWhile_cons_of_neg (by simp)]
  dsimp only
  rw [hfield]
  simp

/-- The string in a whole block. -/
theorem cstring_whole {text : Text} (h : 0 ∉ text) : cstring (text ++ [0]) = some text := by
  have hall : ∀ b ∈ text, decide (b ≠ 0) = true := by
    intro b hb
    rw [decide_eq_true_eq]
    rintro rfl
    exact h hb
  unfold cstring
  rw [if_pos (by simp), List.takeWhile_append_of_pos hall, List.takeWhile_cons_of_neg (by simp),
    List.append_nil]

/-- **A reply is one line, and says what it was meant to say**, whatever is in the message; without
memory there is none, or the text is read behind the end of a block of no size. -/
theorem fLog_unambiguous {sts msg error text : Text} {args : List Arg} (hsts : TAB ∉ sts)
    (hslen : sts.length < 2 ^ 32) (ht : doPrint error msg args = some text) (h0 : 0 ∉ text)
    (hlen : text.length < 2 ^ 32) : ∃ sent, fLog realloc sts msg error args = some sent ∧
      ((∃ line, sent = .bytes (sts ++ TAB :: (line ++ [NL])) ∧ (∀ b ∈ line, Printable b) ∧
          readReply (sts ++ TAB :: (line ++ [NL])) = some (sts, text)) ∨
        (sent = .nothing ∨ sent = .wild) ∧ ∃ i, realloc i = false) := by
  unfold fLog
  rw [ht, Option.bind_some]
  dsimp only
  obtain ⟨-, -, hw | ⟨hnone | hempty, i, -, -, hi⟩⟩ := vasprintf_whole realloc 0 text
  · simp only [hw, cstring_whole h0, doPrint_reply, Option.map_some, fmtstr_plain hslen,
      fmtstr_backsl hlen]
    generalize hreply : sts ++ TAB :: (fmtchars backsl (lastcol backsl text) 0 text ++ [NL]) = reply
    obtain ⟨htl, -, hw' | ⟨hnone | hempty, i, -, -, hi⟩⟩ :=
      vasprintf_whole realloc (VASPrintf realloc 0 text).calls reply
    · refine ⟨_, rfl, Or.inl ⟨fmtchars backsl (lastcol backsl text) 0 text, ?_, ?_, ?_⟩⟩
      · simp only [hw', htl]
        rw [if_pos (by simp only [List.length_append]; omega), hreply]
        simp
      · exact fun b hb => fmtchars_printable rfl hb
      · exact readReply_reply hsts
    · exact ⟨.nothing, by simp only [hnone], Or.inr ⟨Or.inl rfl, i, hi⟩⟩
    · refine ⟨.wild, ?_, Or.inr ⟨Or.inr rfl, i, hi⟩⟩
      simp only [hempty, htl]
      rw [if_neg]
      rw [← hreply]
      simp only [List.length_append, List.length_cons, List.length_nil]
      omega
  · exact ⟨.nothing, by simp only [hnone], Or.inr ⟨Or.inl rfl, i, hi⟩⟩
  · exact ⟨.wild, by simp only [hempty, cstring]; rfl, Or.inr ⟨Or.inr rfl, i, hi⟩⟩

theorem fLog_unambiguous_newline : ∃ sent,
    fLog (fun _ => true) (str "nosys") (str "unknown command %s") [] [.str (some (str "a\n\tb"))] =
        some sent ∧
      ((∃ line, sent = .bytes (str "nosys" ++ TAB :: (line ++ [NL])) ∧ (∀ b ∈ line, Printable b) ∧
          readReply (str "nosys" ++ TAB :: (line ++ [NL])) =
            some (str "nosys", str "unknown command a\n\tb")) ∨
        (sent = .nothing ∨ sent = .wild) ∧ ∃ i, (fun _ : Nat => true) i = false) :=
  fLog_unambiguous (by decide +kernel) (by decide +kernel) (by decide +kernel) (by decide +kernel)
    (by decide +kernel)

end Kdm.Printf
