import Kdm.Lib.Lines
import Kdm.Lib.Runs

/-!
# Control connections

`handleChan` of `ctrl.c`: what a client writes to a control socket is cut into lines, and every
line is a command for `processCtrl`.

* `handleChan` — one look at a connection: read what is there, hand on the first line, keep the
  rest.
* `Conn.call` — the connection with all that was read from it and all commands it gave so far.
* `Framed` — its invariant: the commands are the lines of the reads that had a newline in them.

Principal result: `framed_iff`, when the commands are the lines of what was read.
-/

namespace Kdm.Control

open Lines Runs

/-- `'\n'`. -/
def EOL : UInt8 := 10

/-- `sizeof(buf)`. -/
def BUF_SIZE : Nat := 1024

/-- `struct bsock`.  A positive `buflen` counts bytes that have not been searched for a newline,
a negative one bytes that have none. -/
structure BSock where
  fd : Int
  buffer : List UInt8
  buflen : Int
  deriving DecidableEq

/-- What `handleChan` returns: -1, 1 with the line it gave to `processCtrl`, or 0. -/
inductive Chan where
  | bust
  | command (line : List UInt8) (cs : BSock)
  | idle (cs : BSock)
  deriving DecidableEq

/-- `handleChan` behind the read: `bufp` are the bytes to search, `len` is how many are new and
`mem` tells whether `Malloc` succeeds. -/
def searchChan (cs : BSock) (bufp : List UInt8) (len : Nat) (mem : Bool) : Chan :=
  if bufp ≠ [] then
    if EOL ∈ bufp then
      let line := bufp.takeWhile (· ≠ EOL)
      let nbuf := bufp.drop (line.length + 1)
      if nbuf ≠ [] ∧ mem = false then .bust
      else .command line { cs with buffer := nbuf, buflen := nbuf.length }
    else if len = 0 then .idle { cs with buflen := -bufp.length }
    else .idle cs
  else .idle cs

/-- The bytes `reader` finds room for. -/
def BSock.read (cs : BSock) (recv : List UInt8) : List UInt8 :=
  recv.take (BUF_SIZE - (-cs.buflen).toNat)

/-- `handleChan`: `ready` is the connection's bit of `select`, `recv` is what the client has
sent, with `[]` for the end of the stream. -/
def handleChan (cs : BSock) (ready : Bool) (recv : List UInt8) (mem : Bool) : Chan :=
  if cs.buflen ≤ 0 ∧ ready = true then
    let got := cs.read recv
    if got = [] then .bust
    else searchChan cs (cs.buffer.take (-cs.buflen).toNat ++ got) got.length mem
  else searchChan cs (cs.buffer.take cs.buflen.toNat) 0 mem

/-! ## The connection -/

/-- A connection with the reads that were made from it and the commands it gave. -/
structure Conn where
  sock : BSock
  reads : List (List UInt8)
  commands : List (List UInt8)
  deriving DecidableEq

/-- One call of `handleChan`. -/
structure Call where
  ready : Bool
  recv : List UInt8
  mem : Bool

/-- What `acceptSock` sets up. -/
def Conn.accepted (fd : Int) : Conn := ⟨⟨fd, [], 0⟩, [], []⟩

/-- The read that a call makes. -/
def Call.reads (x : Call) (cs : BSock) : List (List UInt8) :=
  if cs.buflen ≤ 0 ∧ x.ready = true then [cs.read x.recv] else []

/-- A call on the connection, which ends when `handleChan` fails. -/
def Conn.call (x : Call) (c : Conn) : Option Conn :=
  match handleChan c.sock x.ready x.recv x.mem with
  | .bust => none
  | .command line cs => some ⟨cs, c.reads ++ x.reads c.sock, c.commands ++ [line]⟩
  | .idle cs => some ⟨cs, c.reads ++ x.reads c.sock, c.commands⟩

/-- The connections that calls of any kind lead to. -/
def Conn.Reachable : Conn → Prop :=
  Reaches Conn.call (fun c => ∃ fd, c = .accepted fd) fun _ _ => True

/-! ## What a connection holds -/

/-- The length of the buffer, and what its sign means. -/
structure BSock.Filled (cs : BSock) : Prop where
  len : cs.buflen.natAbs = cs.buffer.length
  searched : cs.buflen ≤ 0 → EOL ∉ cs.buffer

/-- What a search leaves behind: the bytes were a line and a rest, or they had no newline and
the connection keeps what it had. -/
theorem searchChan_cases (cs : BSock) (bufp : List UInt8) (len : Nat) (mem : Bool) :
    (∃ line rest, EOL ∉ line ∧ bufp = line ++ EOL :: rest ∧
        (searchChan cs bufp len mem = .bust ∨
          searchChan cs bufp len mem =
            .command line { cs with buffer := rest, buflen := rest.length })) ∨
      (EOL ∉ bufp ∧ ((len ≠ 0 ∨ bufp = []) ∧ searchChan cs bufp len mem = .idle cs ∨
        len = 0 ∧ bufp ≠ [] ∧
          searchChan cs bufp len mem = .idle { cs with buflen := -bufp.length })) := by
  unfold searchChan
  by_cases hb : bufp = []
  · subst hb
    exact .inr ⟨List.not_mem_nil, .inl ⟨.inr rfl, if_neg (not_not.mpr rfl)⟩⟩
  rw [if_pos hb]
  by_cases hm : EOL ∈ bufp
  · left
    obtain ⟨rest, hsplit, hdrop⟩ := takeWhile_append hm
    refine ⟨bufp.takeWhile (· ≠ EOL), rest, not_mem_takeWhile EOL bufp, hsplit, ?_⟩
    rw [if_pos hm]
    dsimp only
    rw [hdrop]
    split
    · exact .inl rfl
    · exact .inr rfl
  · right
    refine ⟨hm, ?_⟩
    rw [if_neg hm]
    by_cases hl : len = 0
    · exact .inr ⟨hl, hb, if_pos hl⟩
    · exact .inl ⟨.inl hl, if_neg hl⟩

section

variable {cs : BSock} (h : cs.Filled)

include h

/-- The bytes that a read is put behind. -/
theorem BSock.Filled.take_partial (hq : cs.buflen ≤ 0) :
    cs.buffer.take (-cs.buflen).toNat = cs.buffer := by
  have := h.len
  exact List.take_of_length_le (by omega)

theorem BSock.Filled.take_unsearched (hq : ¬ cs.buflen ≤ 0) :
    cs.buffer.take cs.buflen.toNat = cs.buffer := by
  have := h.len
  exact List.take_of_length_le (by omega)

end

/-! ## The invariant -/

/-- The commands and the lines that are still buffered are the lines of the reads with a newline
in them; the other reads are lost. -/
structure Framed (c : Conn) : Prop where
  filled : c.sock.Filled
  kept : c.commands ++ segments EOL c.sock.buffer = segments EOL (ended EOL c.reads).flatten
  rest : remainder EOL c.sock.buffer = remainder EOL (ended EOL c.reads).flatten
  nonempty : ∀ r ∈ c.reads, r ≠ []

theorem framed_accepted (fd : Int) : Framed (.accepted fd) :=
  ⟨⟨rfl, fun _ => List.not_mem_nil⟩, rfl, rfl, fun _ h => absurd h List.not_mem_nil⟩

/-- Bytes without a newline are not kept when they are read. -/
theorem ended_snoc (reads : List (List UInt8)) (got : List UInt8) :
    (ended EOL (reads ++ [got])).flatten =
      (ended EOL reads).flatten ++ if EOL ∈ got then got else [] := by
  by_cases hm : EOL ∈ got
  · simp [ended, List.filter_append, hm]
  · simp [ended, List.filter_append, hm]

/-- A call that reads. -/
theorem Framed.read {c : Conn} {got : List UInt8} {mem : Bool} {c' : Conn} (h : Framed c)
    (hq : c.sock.buflen ≤ 0) (hgot : got ≠ [])
    (hc : (match searchChan c.sock (c.sock.buffer ++ got) got.length mem with
      | .bust => none
      | .command line cs => some ⟨cs, c.reads ++ [got], c.commands ++ [line]⟩
      | .idle cs => some ⟨cs, c.reads ++ [got], c.commands⟩) = some c') : Framed c' := by
  have hbuf : EOL ∉ c.sock.buffer := h.filled.searched hq
  have hkept := h.kept
  have hrest := h.rest
  rw [segments_of_not_mem hbuf, List.append_nil] at hkept
  rw [remainder_of_not_mem hbuf] at hrest
  have hne : ∀ r ∈ c.reads ++ [got], r ≠ [] := by
    intro r hr
    rcases List.mem_append.mp hr with hr | hr
    · exact h.nonempty r hr
    · rw [List.mem_singleton.mp hr]; exact hgot
  rcases searchChan_cases c.sock (c.sock.buffer ++ got) got.length mem with
    ⟨line, rest, hline, hsplit, hs | hs⟩ | ⟨hno, ⟨-, hs⟩ | ⟨hl, -⟩⟩
  · rw [hs] at hc; cases hc
  · rw [hs] at hc
    cases hc
    have hm : EOL ∈ got := by
      have : EOL ∈ c.sock.buffer ++ got := by rw [hsplit]; simp
      exact (List.mem_append.mp this).resolve_left hbuf
    refine ⟨⟨by simp, ?_⟩, ?_, ?_, hne⟩
    · intro hle
      have : rest = [] := List.eq_nil_of_length_eq_zero (by simpa using hle)
      simp [this]
    · rw [ended_snoc, if_pos hm, segments_append, ← hkept, ← hrest, hsplit,
        segments_cons_append hline, List.append_assoc]
      rfl
    · rw [ended_snoc, if_pos hm, remainder_append, ← hrest, hsplit, remainder_append_cons]
  · rw [hs] at hc
    cases hc
    have hm : EOL ∉ got := fun hm => hno (List.mem_append_right _ hm)
    refine ⟨h.filled, ?_, ?_, hne⟩
    · rw [ended_snoc, if_neg hm, List.append_nil]; exact h.kept
    · rw [ended_snoc, if_neg hm, List.append_nil]; exact h.rest
  · exact absurd (List.eq_nil_of_length_eq_zero hl) hgot

/-- A call that searches what is buffered. -/
theorem Framed.search {c : Conn} {bufp : List UInt8} {mem : Bool} {c' : Conn} (h : Framed c)
    (hb : bufp = [] ∧ c.sock.buflen ≤ 0 ∨ bufp = c.sock.buffer)
    (hc : (match searchChan c.sock bufp 0 mem with
      | .bust => none
      | .command line cs => some ⟨cs, c.reads, c.commands ++ [line]⟩
      | .idle cs => some ⟨cs, c.reads, c.commands⟩) = some c') : Framed c' := by
  rcases searchChan_cases c.sock bufp 0 mem with
    ⟨line, rest, hline, hsplit, hs | hs⟩ | ⟨hno, ⟨-, hs⟩ | ⟨-, hne, hs⟩⟩
  · rw [hs] at hc; cases hc
  · rw [hs] at hc
    cases hc
    have hbuf : c.sock.buffer = line ++ EOL :: rest := by
      rcases hb with ⟨hb, -⟩ | hb
      · rw [hb] at hsplit
        exact absurd hsplit.symm (by simp)
      · rw [← hb, hsplit]
    have hkept := h.kept
    have hrest := h.rest
    rw [hbuf, segments_cons_append hline] at hkept
    rw [hbuf, remainder_append_cons] at hrest
    refine ⟨⟨by simp, ?_⟩, ?_, hrest, h.nonempty⟩
    · intro hle
      have : rest = [] := List.eq_nil_of_length_eq_zero (by simpa using hle)
      simp [this]
    · rw [List.append_assoc]; exact hkept
  · rw [hs] at hc
    cases hc
    exact h
  · rw [hs] at hc
    cases hc
    have hbuf : bufp = c.sock.buffer := hb.resolve_left fun hb => hne hb.1
    exact ⟨⟨by simp [hbuf], fun _ => hbuf ▸ hno⟩, h.kept, h.rest, h.nonempty⟩

theorem Framed.call {x : Call} {c c' : Conn} (h : Framed c) (hc : c.call x = some c') :
    Framed c' := by
  unfold Conn.call Call.reads handleChan at hc
  by_cases hq : c.sock.buflen ≤ 0 ∧ x.ready = true
  · rw [if_pos hq, if_pos hq] at hc
    dsimp only at hc
    by_cases hgot : c.sock.read x.recv = []
    · rw [if_pos hgot] at hc
      cases hc
    · rw [if_neg hgot, h.filled.take_partial hq.1] at hc
      exact h.read hq.1 hgot hc
  · rw [if_neg hq, if_neg hq] at hc
    simp only [List.append_nil] at hc
    refine h.search ?_ hc
    by_cases hle : c.sock.buflen ≤ 0
    · exact .inl ⟨by simp [Int.toNat_of_nonpos hle], hle⟩
    · exact .inr (h.filled.take_unsearched hle)

theorem reachable_framed {c : Conn} (h : c.Reachable) : Framed c :=
  h.invariant (fun _ ⟨fd, hfd⟩ => hfd ▸ framed_accepted fd) fun _ _ _ hi _ hs => hi.call hs

/-! ## The commands of a connection -/

/-- **Framing**: once all that was read has been searched, the commands are the lines of the
stream if and only if no newline was read after a read without one. -/
theorem framed_iff {c : Conn} (h : c.Reachable) (hq : c.sock.buflen ≤ 0) :
    c.commands = segments EOL c.reads.flatten ↔ Steady EOL c.reads := by
  have hf := reachable_framed h
  have hkept := hf.kept
  rw [segments_of_not_mem (hf.filled.searched hq), List.append_nil] at hkept
  rw [hkept]
  exact segments_filter_iff hf.nonempty

namespace Sample

/-- `caps` and a newline, as two reads. -/
def pieces : List Call := [⟨true, [99, 97], true⟩, ⟨true, [112, 115, 10], true⟩]

/-- The same in one read. -/
def whole : List Call := [⟨true, [99, 97, 112, 115, 10], true⟩]

end Sample

theorem reachable_exec {fd : Int} {xs : List Call} {c : Conn}
    (h : exec Conn.call (fun _ _ => true) xs (.accepted fd) = some c) : c.Reachable := by
  refine Reaches.exec ?_ ⟨[], .start ⟨fd, rfl⟩⟩ h
  exact fun _ _ _ => trivial

theorem framed_iff_whole : ∃ c : Conn, c.commands = [[99, 97, 112, 115]] ∧
    (c.commands = segments EOL c.reads.flatten ↔ Steady EOL c.reads) := by
  obtain ⟨c, hc⟩ : ∃ c, exec Conn.call (fun _ _ => true) Sample.whole (.accepted 5) = some c :=
    ⟨_, rfl⟩
  refine ⟨c, ?_, framed_iff (reachable_exec hc) ?_⟩
  · cases hc; rfl
  · cases hc; decide

/-- The command `caps` arrives as `ps`. -/
theorem not_framed : ∃ c : Conn, c.Reachable ∧ c.sock.buflen ≤ 0 ∧
    segments EOL c.reads.flatten = [[99, 97, 112, 115]] ∧ c.commands = [[112, 115]] := by
  obtain ⟨c, hc⟩ : ∃ c, exec Conn.call (fun _ _ => true) Sample.pieces (.accepted 5) = some c :=
    ⟨_, rfl⟩
  refine ⟨c, reachable_exec hc, ?_⟩
  cases hc
  exact ⟨by decide, rfl, rfl⟩

end Kdm.Control
