import Kdm.Control.Channel
import Mathlib.Data.List.Forall2
import Mathlib.Data.List.Nodup

/-!
# The main loop and the control sockets

Three loops share one set of ready descriptors: `handleCtrl` of `ctrl.c` over the connections of
a socket, the `goto again` loop of `dm.c` over the displays, and the main loop around them, which
takes at most one command from the global socket.

* `handleCtrl` — one event of a control socket: a connection is accepted, or the connections are
  gone through up to the first command.
* `round` — the displays from `again` to the first command, the first display with something on
  its pipes, or the end of the list.
* `step` — the main loop between two calls of `select`; what commands do to the control records
  is part of the event, and `Allowed` says what they can do.

Principal result: `settled_of_calm`, when no command is left in a buffer and no socket is asked
twice for a connection.
-/

namespace Kdm.Control.Loop

open Runs

/-! ## The records -/

/-- `CtrlRec`: the listening socket and its connections. -/
structure CtrlRec where
  fd : Int
  css : List BSock

/-- `struct display`, as far as the loop looks at it; `id` is the address of the record. -/
structure Display where
  id : Nat
  ctrl : CtrlRec
  pipe : Int
  gpipe : Int

/-- A set of descriptors, as `select` returns it. -/
abbrev FdSet := List Int

/-- `fd >= 0 && FD_ISSET(fd, reads)`. -/
def isSet (fd : Int) (reads : FdSet) : Bool := decide (0 ≤ fd) && reads.contains fd

def CtrlRec.ready (cr : CtrlRec) (reads : FdSet) : Bool := isSet cr.fd reads

/-- One of the display's pipes ends its round. -/
def Display.piped (d : Display) (reads : FdSet) : Bool := isSet d.pipe reads || isSet d.gpipe reads

/-- What the system calls give: what a client has sent, whether there is memory for the bytes
behind a command, and the connection that `acceptSock` sets up. -/
structure Sys where
  recv : Int → List UInt8
  mem : Int → Bool
  accept : Int → Option Int

/-! ## `handleCtrl` -/

def acceptSock (sys : Sys) (cr : CtrlRec) : CtrlRec :=
  match sys.accept cr.fd with
  | some fd => { cr with css := ⟨fd, [], 0⟩ :: cr.css }
  | none => cr

/-- The `FD_CLR` of `handleChan`. -/
def clear (cs : BSock) (reads : FdSet) : FdSet :=
  if cs.buflen ≤ 0 ∧ reads.contains cs.fd = true then reads.filter (· ≠ cs.fd) else reads

/-- The connections, the descriptors and the command that a loop over connections ends with. -/
structure Swept where
  css : List BSock
  reads : FdSet
  command : Option (List UInt8)

def handleChans (sys : Sys) : FdSet → List BSock → Swept
  | reads, [] => ⟨[], reads, none⟩
  | reads, cs :: css =>
    match handleChan cs (reads.contains cs.fd) (sys.recv cs.fd) (sys.mem cs.fd) with
    | .bust => handleChans sys (clear cs reads) css
    | .command line cs' => ⟨cs' :: css, clear cs reads, some line⟩
    | .idle cs' =>
      let r := handleChans sys (clear cs reads) css
      ⟨cs' :: r.css, r.reads, r.command⟩

theorem handleChans_cons (sys : Sys) (reads : FdSet) (cs : BSock) (css : List BSock) :
    handleChans sys reads (cs :: css) =
      match handleChan cs (reads.contains cs.fd) (sys.recv cs.fd) (sys.mem cs.fd) with
      | .bust => handleChans sys (clear cs reads) css
      | .command line cs' => ⟨cs' :: css, clear cs reads, some line⟩
      | .idle cs' =>
        let r := handleChans sys (clear cs reads) css
        ⟨cs' :: r.css, r.reads, r.command⟩ := rfl

/-- What `handleCtrl` leaves; `command` is the line it gave to `processCtrl` before it returned
`True`. -/
structure Handled where
  ctrl : CtrlRec
  reads : FdSet
  accepted : Bool
  command : Option (List UInt8)

def handleCtrl (sys : Sys) (reads : FdSet) (cr : CtrlRec) : Handled :=
  if cr.ready reads then ⟨acceptSock sys cr, reads, true, none⟩
  else
    let r := handleChans sys reads cr.css
    ⟨{ cr with css := r.css }, r.reads, false, r.command⟩

/-! ## The loop over the displays -/

/-- What a round leaves: the displays, the descriptors, the sockets that `accept` was called on,
and whether it ended with a command. -/
structure Round where
  displays : List Display
  reads : FdSet
  accepts : List (Option Nat)
  again : Bool

def round (sys : Sys) : FdSet → List Display → Round
  | reads, [] => ⟨[], reads, [], false⟩
  | reads, d :: ds =>
    let r := handleCtrl sys reads d.ctrl
    let d' := { d with ctrl := r.ctrl }
    let accepts := if r.accepted then [some d.id] else []
    if r.command.isSome then ⟨d' :: ds, r.reads, accepts, true⟩
    else if d.piped r.reads then ⟨d' :: ds, r.reads, accepts, false⟩
    else
      let p := round sys r.reads ds
      ⟨d' :: p.displays, p.reads, accepts ++ p.accepts, p.again⟩

theorem round_cons (sys : Sys) (reads : FdSet) (d : Display) (ds : List Display) :
    round sys reads (d :: ds) =
      let r := handleCtrl sys reads d.ctrl
      let d' := { d with ctrl := r.ctrl }
      let accepts := if r.accepted then [some d.id] else []
      if r.command.isSome then ⟨d' :: ds, r.reads, accepts, true⟩
      else if d.piped r.reads then ⟨d' :: ds, r.reads, accepts, false⟩
      else
        let p := round sys r.reads ds
        ⟨d' :: p.displays, p.reads, accepts ++ p.accepts, p.again⟩ := rfl

/-! ## The main loop -/

/-- The control records of the daemon. -/
structure Records where
  ctrl : CtrlRec
  displays : List Display

/-- The loop is about to call `select`, or stands at `again` with what is left of the set. -/
inductive Pc where
  | select
  | again (reads : FdSet)

/-- `accepts` are the sockets that `accept` was called on since `select`, `none` for the global
one. -/
structure State extends Records where
  pc : Pc
  accepts : List (Option Nat)

/-- * `other` — anything that does not end in a loop over connections: timeouts, signals, XDMCP
  packets, sub-daemons and greeters that report on their pipes;
* `ready` — `select` returns and the global socket is looked at;
* `turn` — a round of the loop over the displays.

`after` are the records as `processCtrl` leaves them, if there was a command. -/
inductive Event where
  | other (after : Records)
  | ready (reads : FdSet) (sys : Sys) (after : Records)
  | turn (sys : Sys) (after : Records)

/-- The records behind `handleCtrl(&reads, 0)`. -/
def Records.woken (x : Records) (sys : Sys) (reads : FdSet) : Records :=
  { x with ctrl := (handleCtrl sys reads x.ctrl).ctrl }

/-- The records behind a round. -/
def Records.turned (x : Records) (sys : Sys) (reads : FdSet) : Records :=
  { x with displays := (round sys reads x.displays).displays }

def step : Event → State → Option State
  | .other after, s =>
    match s.pc with
    | .select => some { s with toRecords := after }
    | .again _ => none
  | .ready reads sys after, s =>
    match s.pc with
    | .select =>
      let r := handleCtrl sys reads s.ctrl
      let accepts := if r.accepted then [none] else []
      if r.command.isSome then some ⟨after, .select, accepts⟩
      else some ⟨s.woken sys reads, .again r.reads, accepts⟩
    | .again _ => none
  | .turn sys after, s =>
    match s.pc with
    | .again reads =>
      let p := round sys reads s.displays
      if p.again then some ⟨after, .again p.reads, s.accepts ++ p.accepts⟩
      else some ⟨s.turned sys reads, .select, s.accepts ++ p.accepts⟩
    | .select => none

/-- The daemon when it enters the loop. -/
def Init (s : State) : Prop :=
  s.pc = .select ∧ s.accepts = [] ∧ s.ctrl.css = [] ∧ s.displays = []

/-! ## What else happens to the records -/

/-- Displays come and go and sockets are opened and closed, but nobody else touches the
connections of a socket. -/
structure Others (x y : Records) : Prop where
  ctrl : y.ctrl.css = x.ctrl.css ∨ y.ctrl.css = []
  displays : ∀ d ∈ y.displays, d.ctrl.css = [] ∨ ∃ b ∈ x.displays, d.ctrl.css = b.ctrl.css
  ids : (y.displays.map Display.id).Nodup

/-- A display that is still there, possibly without its sub-daemon. -/
structure Kept (d d' : Display) : Prop where
  id : d'.id = d.id
  ctrl : d'.ctrl = d.ctrl
  pipe : d'.pipe = d.pipe ∨ d'.pipe = -1
  gpipe : d'.gpipe = d.gpipe ∨ d'.gpipe = -1

/-- What `newDisplay` puts at the head of the list. -/
structure Fresh (d : Display) : Prop where
  ctrl : d.ctrl = ⟨-1, []⟩
  pipe : d.pipe = -1
  gpipe : d.gpipe = -1

/-- What `processCtrl` can do: displays are added and removed, and `updateCtrl` closes the global
socket; the sockets of displays are opened and closed elsewhere. -/
structure Processed (x y : Records) : Prop where
  ctrl : y.ctrl = x.ctrl ∨ y.ctrl.css = []
  displays : ∃ news stay kept, y.displays = news ++ kept ∧ (∀ d ∈ news, Fresh d) ∧
    List.Sublist stay x.displays ∧ List.Forall₂ Kept stay kept
  ids : (y.displays.map Display.id).Nodup

/-- The events that the rest of the daemon allows. -/
def Allowed (s : State) : Event → Prop
  | .other after => Others s.toRecords after
  | .ready reads sys after =>
    (handleCtrl sys reads s.ctrl).command.isSome = true → Processed (s.woken sys reads) after
  | .turn sys after => ∀ reads, s.pc = .again reads →
    (round sys reads s.displays).again = true → Processed (s.turned sys reads) after

/-- **The property**: no connection has a command in its buffer when `select` is entered, and
`accept` was called at most once on each socket. -/
structure Settled (s : State) : Prop where
  ctrl : s.pc = .select → ∀ cs ∈ s.ctrl.css, EOL ∉ cs.buffer
  displays : s.pc = .select → ∀ d ∈ s.displays, ∀ cs ∈ d.ctrl.css, EOL ∉ cs.buffer
  accepts : s.accepts.Nodup

/-- The connections of a socket give no command: there is no newline in what they hold or have been
sent. -/
def CtrlRec.Silent (sys : Sys) (reads : FdSet) (cr : CtrlRec) : Prop :=
  ∀ cs ∈ cr.css, EOL ∉ cs.buffer ∧ (reads.contains cs.fd = true → EOL ∉ sys.recv cs.fd)

/-- **The condition**: a read from a connection of the global socket brings one command at most, and
the displays behind one whose socket is ready give no command. -/
def Calm (s : State) : Event → Prop
  | .other _ => True
  | .ready reads sys _ => ∀ cs ∈ s.ctrl.css, reads.contains cs.fd = true →
    (cs.read (sys.recv cs.fd)).count EOL ≤ 1
  | .turn sys _ => ∀ reads, s.pc = .again reads →
    s.displays.Pairwise fun d e => d.ctrl.ready reads = true → e.ctrl.Silent sys reads

variable {sys : Sys} {reads reads' : FdSet} {cs cs' : BSock} {css : List BSock}

/-! ## A connection -/

theorem searchChan_nil (len : Nat) (mem : Bool) : searchChan cs [] len mem = .idle cs :=
  if_neg fun h => h rfl

theorem searchChan_idle {bufp : List UInt8} {len : Nat} {mem : Bool}
    (h : searchChan cs bufp len mem = .idle cs') :
    EOL ∉ bufp ∧ (cs' = cs ∨ cs' = { cs with buflen := -bufp.length }) := by
  rcases searchChan_cases cs bufp len mem with
    ⟨_, _, _, _, hs | hs⟩ | ⟨hno, ⟨_, hs⟩ | ⟨_, _, hs⟩⟩
  · rw [hs] at h
    cases h
  · rw [hs] at h
    cases h
  · rw [hs] at h
    cases h
    exact ⟨hno, .inl rfl⟩
  · rw [hs] at h
    cases h
    exact ⟨hno, .inr rfl⟩

theorem searchChan_command {bufp line : List UInt8} {len : Nat} {mem : Bool}
    (h : searchChan cs bufp len mem = .command line cs') :
    ∃ rest, bufp = line ++ EOL :: rest ∧
      cs' = { cs with buffer := rest, buflen := rest.length } := by
  rcases searchChan_cases cs bufp len mem with
    ⟨l, rest, _, hsplit, hs | hs⟩ | ⟨_, ⟨_, hs⟩ | ⟨_, _, hs⟩⟩
  · rw [hs] at h
    cases h
  · rw [hs] at h
    cases h
    exact ⟨rest, hsplit, rfl⟩
  · rw [hs] at h
    cases h
  · rw [hs] at h
    cases h

/-- Without a command, the bytes stay where they are, and have been searched. -/
theorem handleChan_idle {ready mem : Bool} {recv : List UInt8} (hf : cs.Filled)
    (h : handleChan cs ready recv mem = .idle cs') : cs'.Filled ∧ EOL ∉ cs'.buffer := by
  unfold handleChan at h
  by_cases hq : cs.buflen ≤ 0 ∧ ready = true
  · rw [if_pos hq] at h
    dsimp only at h
    by_cases hgot : cs.read recv = []
    · rw [if_pos hgot] at h
      cases h
    · rw [if_neg hgot, hf.take_partial hq.1] at h
      -- the bytes that were read have no newline and are lost
      have hlen : (cs.read recv).length ≠ 0 := fun h0 => hgot (List.eq_nil_of_length_eq_zero h0)
      rcases searchChan_cases cs (cs.buffer ++ cs.read recv) (cs.read recv).length mem with
        ⟨_, _, _, _, hs | hs⟩ | ⟨_, ⟨_, hs⟩ | ⟨h0, _⟩⟩
      · rw [hs] at h
        cases h
      · rw [hs] at h
        cases h
      · rw [hs] at h
        cases h
        exact ⟨hf, hf.searched hq.1⟩
      · exact absurd h0 hlen
  · rw [if_neg hq] at h
    by_cases hle : cs.buflen ≤ 0
    · have h0 : cs.buflen.toNat = 0 := by omega
      rw [h0, List.take_zero, searchChan_nil] at h
      cases h
      exact ⟨hf, hf.searched hle⟩
    · rw [hf.take_unsearched hle] at h
      obtain ⟨hno, rfl | rfl⟩ := searchChan_idle h
      · exact ⟨hf, hno⟩
      · exact ⟨⟨by simp, fun _ => hno⟩, hno⟩

/-- A command and what is left behind it were in the buffer or in what was read. -/
theorem handleChan_command {ready mem : Bool} {recv line : List UInt8} (hf : cs.Filled)
    (h : handleChan cs ready recv mem = .command line cs') :
    cs'.Filled ∧ ∃ held, held = line ++ EOL :: cs'.buffer ∧
      (held = cs.buffer ∨ ready = true ∧ EOL ∉ cs.buffer ∧ held = cs.buffer ++ cs.read recv) := by
  have hfilled : ∀ rest, ({ cs with buffer := rest, buflen := rest.length } : BSock).Filled := by
    intro rest
    refine ⟨by simp, fun hle => ?_⟩
    have : rest = [] := List.eq_nil_of_length_eq_zero (by simpa using hle)
    simp [this]
  unfold handleChan at h
  by_cases hq : cs.buflen ≤ 0 ∧ ready = true
  · rw [if_pos hq] at h
    dsimp only at h
    by_cases hgot : cs.read recv = []
    · rw [if_pos hgot] at h
      cases h
    · rw [if_neg hgot, hf.take_partial hq.1] at h
      obtain ⟨rest, hsplit, rfl⟩ := searchChan_command h
      exact ⟨hfilled rest, _, hsplit, .inr ⟨hq.2, hf.searched hq.1, rfl⟩⟩
  · rw [if_neg hq] at h
    obtain ⟨rest, hsplit, rfl⟩ := searchChan_command h
    by_cases hle : cs.buflen ≤ 0
    · have h0 : cs.buflen.toNat = 0 := by omega
      rw [h0, List.take_zero] at hsplit
      exact absurd hsplit.symm (by simp)
    · rw [hf.take_unsearched hle] at hsplit
      exact ⟨hfilled rest, _, hsplit, .inl rfl⟩

theorem mem_read {recv : List UInt8} {c : UInt8} (h : c ∈ cs.read recv) : c ∈ recv :=
  List.mem_of_mem_take h

/-! ## The connections of a socket -/

theorem clear_sub (cs : BSock) (reads : FdSet) : clear cs reads ⊆ reads := by
  unfold clear
  split
  · exact fun _ hx => List.mem_of_mem_filter hx
  · exact List.Subset.refl _

theorem contains_sub (h : reads' ⊆ reads) {fd : Int} (hc : reads'.contains fd = true) :
    reads.contains fd = true :=
  List.contains_iff_mem.mpr (h (List.contains_iff_mem.mp hc))

theorem handleChans_reads (sys : Sys) (reads : FdSet) (css : List BSock) :
    (handleChans sys reads css).reads ⊆ reads := by
  induction css generalizing reads with
  | nil => exact List.Subset.refl _
  | cons cs css ih =>
    rw [handleChans_cons]
    split
    · exact List.Subset.trans (ih _) (clear_sub cs reads)
    · exact clear_sub cs reads
    · exact List.Subset.trans (ih _) (clear_sub cs reads)

theorem handleChans_filled (h : ∀ cs ∈ css, cs.Filled) :
    ∀ cs ∈ (handleChans sys reads css).css, cs.Filled := by
  induction css generalizing reads with
  | nil => exact fun cs hcs => by cases hcs
  | cons cs css ih =>
    obtain ⟨hcs, hcss⟩ := List.forall_mem_cons.mp h
    rw [handleChans_cons]
    split
    · exact ih hcss
    · rename_i line cs' hc
      exact List.forall_mem_cons.mpr ⟨(handleChan_command hcs hc).1, hcss⟩
    · rename_i cs' hc
      exact List.forall_mem_cons.mpr ⟨(handleChan_idle hcs hc).1, ih hcss⟩

/-- Connections that give no command hold none. -/
theorem handleChans_quiet (h : ∀ cs ∈ css, cs.Filled)
    (hn : (handleChans sys reads css).command = none) :
    ∀ cs ∈ (handleChans sys reads css).css, EOL ∉ cs.buffer := by
  induction css generalizing reads with
  | nil => exact fun cs hcs => by cases hcs
  | cons cs css ih =>
    obtain ⟨hcs, hcss⟩ := List.forall_mem_cons.mp h
    rw [handleChans_cons] at hn ⊢
    split at hn
    · exact ih hcss hn
    · cases hn
    · rename_i cs' hc
      exact List.forall_mem_cons.mpr ⟨(handleChan_idle hcs hc).2, ih hcss hn⟩

/-- One command at most from each connection leaves none in a buffer. -/
theorem handleChans_single (h : ∀ cs ∈ css, cs.Filled) (hq : ∀ cs ∈ css, EOL ∉ cs.buffer)
    (hone : ∀ cs ∈ css, reads.contains cs.fd = true →
      (cs.read (sys.recv cs.fd)).count EOL ≤ 1) :
    ∀ cs ∈ (handleChans sys reads css).css, EOL ∉ cs.buffer := by
  induction css generalizing reads with
  | nil => exact fun cs hcs => by cases hcs
  | cons cs css ih =>
    obtain ⟨hcs, hcss⟩ := List.forall_mem_cons.mp h
    obtain ⟨hqs, hqss⟩ := List.forall_mem_cons.mp hq
    obtain ⟨hones, honess⟩ := List.forall_mem_cons.mp hone
    have hrest : ∀ x ∈ (handleChans sys (clear cs reads) css).css, EOL ∉ x.buffer := by
      refine ih hcss hqss fun x hx hc => ?_
      exact honess x hx (contains_sub (clear_sub cs reads) hc)
    rw [handleChans_cons]
    split
    · exact hrest
    · rename_i line cs' hc
      refine List.forall_mem_cons.mpr ⟨?_, hqss⟩
      obtain ⟨_, held, hsplit, rfl | ⟨hr, _, rfl⟩⟩ := handleChan_command hcs hc
      · exact absurd (hsplit ▸ List.mem_append_right _ List.mem_cons_self) hqs
      · have hcount := congrArg (List.count EOL) hsplit
        rw [List.count_append, List.count_append, List.count_cons_self,
          List.count_eq_zero_of_not_mem hqs] at hcount
        have := hones hr
        exact List.count_eq_zero.mp (by omega)
    · rename_i cs' hc
      exact List.forall_mem_cons.mpr ⟨(handleChan_idle hcs hc).2, hrest⟩

/-- Silent connections give no command. -/
theorem handleChans_silent (h : ∀ cs ∈ css, cs.Filled)
    (hs : ∀ cs ∈ css, EOL ∉ cs.buffer ∧ (reads.contains cs.fd = true → EOL ∉ sys.recv cs.fd)) :
    (handleChans sys reads css).command = none := by
  induction css generalizing reads with
  | nil => rfl
  | cons cs css ih =>
    obtain ⟨hcs, hcss⟩ := List.forall_mem_cons.mp h
    obtain ⟨⟨hq, hr⟩, hss⟩ := List.forall_mem_cons.mp hs
    have hrest : (handleChans sys (clear cs reads) css).command = none := by
      refine ih hcss fun x hx => ⟨(hss x hx).1, fun hc => ?_⟩
      exact (hss x hx).2 (contains_sub (clear_sub cs reads) hc)
    rw [handleChans_cons]
    split
    · exact hrest
    · rename_i line cs' hc
      obtain ⟨_, held, hsplit, rfl | ⟨hready, _, rfl⟩⟩ := handleChan_command hcs hc
      · exact absurd (hsplit ▸ List.mem_append_right _ List.mem_cons_self) hq
      · have hm : EOL ∈ cs.buffer ++ cs.read (sys.recv cs.fd) := by
          rw [hsplit]
          exact List.mem_append_right _ List.mem_cons_self
        rcases List.mem_append.mp hm with hm | hm
        · exact absurd hm hq
        · exact absurd (mem_read hm) (hr hready)
    · exact hrest

/-! ## A socket -/

/-- No connection holds a command. -/
def CtrlRec.Quiet (cr : CtrlRec) : Prop := ∀ cs ∈ cr.css, EOL ∉ cs.buffer

def CtrlRec.Filled (cr : CtrlRec) : Prop := ∀ cs ∈ cr.css, cs.Filled

variable {cr : CtrlRec}

theorem acceptSock_fd (sys : Sys) (cr : CtrlRec) : (acceptSock sys cr).fd = cr.fd := by
  unfold acceptSock
  split
  · rfl
  · rfl

theorem CtrlRec.Quiet.acceptSock (h : cr.Quiet) (sys : Sys) : (acceptSock sys cr).Quiet := by
  unfold Loop.acceptSock
  split
  · exact List.forall_mem_cons.mpr ⟨List.not_mem_nil, h⟩
  · exact h

theorem CtrlRec.Filled.acceptSock (h : cr.Filled) (sys : Sys) : (acceptSock sys cr).Filled := by
  unfold Loop.acceptSock
  split
  · exact List.forall_mem_cons.mpr ⟨⟨rfl, fun _ => List.not_mem_nil⟩, h⟩
  · exact h

theorem handleCtrl_ready (sys : Sys) (h : cr.ready reads = true) :
    handleCtrl sys reads cr = ⟨acceptSock sys cr, reads, true, none⟩ := if_pos h

theorem handleCtrl_waiting (sys : Sys) (h : cr.ready reads = false) :
    handleCtrl sys reads cr = ⟨{ cr with css := (handleChans sys reads cr.css).css },
      (handleChans sys reads cr.css).reads, false, (handleChans sys reads cr.css).command⟩ :=
  if_neg (by rw [h]; exact Bool.false_ne_true)

theorem handleCtrl_fd (sys : Sys) (reads : FdSet) (cr : CtrlRec) :
    (handleCtrl sys reads cr).ctrl.fd = cr.fd := by
  unfold handleCtrl
  split
  · exact acceptSock_fd sys cr
  · rfl

theorem handleCtrl_reads (sys : Sys) (reads : FdSet) (cr : CtrlRec) :
    (handleCtrl sys reads cr).reads ⊆ reads := by
  unfold handleCtrl
  split
  · exact List.Subset.refl _
  · exact handleChans_reads sys reads cr.css

theorem handleCtrl_filled (h : cr.Filled) : (handleCtrl sys reads cr).ctrl.Filled := by
  unfold handleCtrl
  split
  · exact h.acceptSock sys
  · exact handleChans_filled h

/-- A call without a command leaves none behind, unless a connection is accepted instead. -/
theorem handleCtrl_quiet (h : cr.Filled) (hq : cr.ready reads = true → cr.Quiet)
    (hn : (handleCtrl sys reads cr).command = none) : (handleCtrl sys reads cr).ctrl.Quiet := by
  unfold handleCtrl at hn ⊢
  split at hn
  · rename_i hr
    rw [if_pos hr]
    exact (hq hr).acceptSock sys
  · rename_i hr
    rw [if_neg hr]
    exact handleChans_quiet h hn

theorem isSet_sub (h : reads' ⊆ reads) {fd : Int} (hs : isSet fd reads' = true) :
    isSet fd reads = true := by
  unfold isSet at hs ⊢
  rw [Bool.and_eq_true] at hs ⊢
  exact ⟨hs.1, contains_sub h hs.2⟩

theorem ready_sub (h : reads' ⊆ reads) (hr : cr.ready reads = false) : cr.ready reads' = false :=
  Bool.eq_false_iff.mpr fun hs => Bool.false_ne_true (hr.symm.trans (isSet_sub h hs))

variable {d e : Display} {ds : List Display}

theorem piped_sub (h : reads' ⊆ reads) (hp : d.piped reads' = true) : d.piped reads = true := by
  unfold Display.piped at hp ⊢
  rw [Bool.or_eq_true] at hp ⊢
  exact hp.imp (isSet_sub h) (isSet_sub h)

theorem CtrlRec.Silent.sub (h : cr.Silent sys reads) (hsub : reads' ⊆ reads) :
    cr.Silent sys reads' := fun cs hcs =>
  ⟨(h cs hcs).1, fun hc => (h cs hcs).2 (contains_sub hsub hc)⟩

/-! ## A round -/

/-- Where the displays are at `again`: one that holds a command is not about to accept a connection
instead, and none in front of it ends the round. -/
structure Waiting (reads : FdSet) (ds : List Display) : Prop where
  ready : ∀ d ∈ ds, d.ctrl.Quiet ∨ d.ctrl.ready reads = false
  piped : ds.Pairwise fun d e => d.piped reads = true → e.ctrl.Quiet

namespace Waiting

theorem of_quiet (h : ∀ d ∈ ds, d.ctrl.Quiet) : Waiting reads ds where
  ready := fun d hd => .inl (h d hd)
  piped := List.pairwise_of_forall_mem_list fun _ _ e he _ => h e he

theorem sub (h : Waiting reads ds) (hsub : reads' ⊆ reads) : Waiting reads' ds where
  ready := fun d hd => (h.ready d hd).imp_right (ready_sub hsub)
  piped := h.piped.imp fun hde hp => hde (piped_sub hsub hp)

theorem tail (h : Waiting reads (d :: ds)) : Waiting reads ds :=
  ⟨(List.forall_mem_cons.mp h.ready).2, (List.pairwise_cons.mp h.piped).2⟩

theorem head (h : Waiting reads (d :: ds)) (hp : d.piped reads = true) :
    ∀ e ∈ ds, e.ctrl.Quiet := fun e he => (List.pairwise_cons.mp h.piped).1 e he hp

end Waiting

theorem round_reads (sys : Sys) (reads : FdSet) (ds : List Display) :
    (round sys reads ds).reads ⊆ reads := by
  induction ds generalizing reads with
  | nil => exact List.Subset.refl _
  | cons d ds ih =>
    have hr := handleCtrl_reads sys reads d.ctrl
    rw [round_cons]
    dsimp only
    split
    · exact hr
    · split
      · exact hr
      · exact List.Subset.trans (ih _) hr

theorem round_ids (sys : Sys) (reads : FdSet) (ds : List Display) :
    (round sys reads ds).displays.map Display.id = ds.map Display.id := by
  induction ds generalizing reads with
  | nil => rfl
  | cons d ds ih =>
    rw [round_cons]
    dsimp only
    split
    · rfl
    · split
      · rfl
      · exact congrArg (d.id :: ·) (ih _)

theorem round_accepts (sys : Sys) (reads : FdSet) (ds : List Display) :
    (round sys reads ds).accepts.Sublist (ds.map fun d => some d.id) := by
  induction ds generalizing reads with
  | nil => exact List.Sublist.slnil
  | cons d ds ih =>
    have hone : (if (handleCtrl sys reads d.ctrl).accepted then [some d.id] else []).Sublist
        [some d.id] := by
      split
      · exact List.Sublist.refl _
      · exact List.nil_sublist _
    have hall := hone.append (List.nil_sublist (ds.map fun d => some d.id))
    rw [List.append_nil] at hall
    rw [round_cons]
    dsimp only
    split
    · exact hall
    · split
      · exact hall
      · exact hone.append (ih _)

theorem round_filled (h : ∀ d ∈ ds, d.ctrl.Filled) :
    ∀ d ∈ (round sys reads ds).displays, d.ctrl.Filled := by
  induction ds generalizing reads with
  | nil => exact fun d hd => by cases hd
  | cons d ds ih =>
    obtain ⟨hd, hds⟩ := List.forall_mem_cons.mp h
    have hf : (handleCtrl sys reads d.ctrl).ctrl.Filled := handleCtrl_filled hd
    rw [round_cons]
    dsimp only
    split
    · exact List.forall_mem_cons.mpr ⟨hf, hds⟩
    · split
      · exact List.forall_mem_cons.mpr ⟨hf, hds⟩
      · exact List.forall_mem_cons.mpr ⟨hf, ih hds⟩

/-- **A round without a command** leaves no command. -/
theorem round_quiet (hf : ∀ d ∈ ds, d.ctrl.Filled) (h : Waiting reads ds)
    (ha : (round sys reads ds).again = false) :
    ∀ d ∈ (round sys reads ds).displays, d.ctrl.Quiet := by
  induction ds generalizing reads with
  | nil => exact fun d hd => by cases hd
  | cons d ds ih =>
    obtain ⟨hd, hds⟩ := List.forall_mem_cons.mp hf
    have hsub := handleCtrl_reads sys reads d.ctrl
    rw [round_cons] at ha ⊢
    dsimp only at ha ⊢
    by_cases hcmd : (handleCtrl sys reads d.ctrl).command.isSome = true
    · rw [if_pos hcmd] at ha
      cases ha
    · rw [if_neg hcmd] at ha ⊢
      have hquiet : (handleCtrl sys reads d.ctrl).ctrl.Quiet := by
        apply handleCtrl_quiet hd
        · intro hr
          rcases h.ready d List.mem_cons_self with hq | hn
          · exact hq
          · rw [hn] at hr
            cases hr
        · simpa using hcmd
      by_cases hp : d.piped (handleCtrl sys reads d.ctrl).reads = true
      · rw [if_pos hp] at ha ⊢
        exact List.forall_mem_cons.mpr ⟨hquiet, h.head (piped_sub hsub hp)⟩
      · rw [if_neg hp] at ha ⊢
        exact List.forall_mem_cons.mpr ⟨hquiet, ih hds (h.tail.sub hsub) ha⟩

/-- **A round with a command** that accepts no connection leaves the displays waiting. -/
theorem round_waiting (hf : ∀ d ∈ ds, d.ctrl.Filled) (h : Waiting reads ds)
    (ha : (round sys reads ds).again = true) (hacc : (round sys reads ds).accepts = []) :
    Waiting (round sys reads ds).reads (round sys reads ds).displays := by
  induction ds generalizing reads with
  | nil => cases ha
  | cons d ds ih =>
    obtain ⟨hd, hds⟩ := List.forall_mem_cons.mp hf
    have hsub := handleCtrl_reads sys reads d.ctrl
    have hfd := handleCtrl_fd sys reads d.ctrl
    rw [round_cons] at ha hacc ⊢
    dsimp only at ha hacc ⊢
    by_cases hcmd : (handleCtrl sys reads d.ctrl).command.isSome = true
    · rw [if_pos hcmd]
      have hrest := h.tail.sub hsub
      refine ⟨List.forall_mem_cons.mpr ⟨.inr ?_, hrest.ready⟩, List.pairwise_cons.mpr
        ⟨fun e he hp => h.head (piped_sub hsub hp) e he, hrest.piped⟩⟩
      have hready : d.ctrl.ready reads = false := by
        cases hr : d.ctrl.ready reads with
        | false => rfl
        | true =>
          rw [handleCtrl_ready sys hr] at hcmd
          cases hcmd
      have := ready_sub hsub hready
      unfold CtrlRec.ready at this ⊢
      rw [hfd]
      exact this
    · rw [if_neg hcmd] at ha hacc ⊢
      by_cases hp : d.piped (handleCtrl sys reads d.ctrl).reads = true
      · rw [if_pos hp] at ha
        cases ha
      · rw [if_neg hp] at ha hacc ⊢
        obtain ⟨hno, hacc⟩ := List.append_eq_nil_iff.mp hacc
        have hrest := ih hds (h.tail.sub hsub) ha hacc
        have hquiet : (handleCtrl sys reads d.ctrl).ctrl.Quiet := by
          apply handleCtrl_quiet hd
          · intro hr
            rw [handleCtrl_ready sys hr] at hno
            cases hno
          · simpa using hcmd
        refine ⟨List.forall_mem_cons.mpr ⟨.inl hquiet, hrest.ready⟩, List.pairwise_cons.mpr
          ⟨fun e _ hp' => absurd ?_ hp, hrest.piped⟩⟩
        exact piped_sub (round_reads sys _ ds) hp'

/-- Silent displays end a round without a command. -/
theorem round_silent (hf : ∀ d ∈ ds, d.ctrl.Filled) (h : ∀ d ∈ ds, d.ctrl.Silent sys reads) :
    (round sys reads ds).again = false := by
  induction ds generalizing reads with
  | nil => rfl
  | cons d ds ih =>
    obtain ⟨hd, hds⟩ := List.forall_mem_cons.mp hf
    obtain ⟨hs, hss⟩ := List.forall_mem_cons.mp h
    have hsub := handleCtrl_reads sys reads d.ctrl
    have hcmd : (handleCtrl sys reads d.ctrl).command = none := by
      unfold handleCtrl
      split
      · rfl
      · exact handleChans_silent hd hs
    rw [round_cons]
    dsimp only
    rw [hcmd, if_neg (by simp)]
    split
    · rfl
    · exact ih hds fun e he => (hss e he).sub hsub

/-- **No connection is accepted** in a round with a command, when the displays behind one whose
socket is ready are silent. -/
theorem round_again (hf : ∀ d ∈ ds, d.ctrl.Filled)
    (h : ds.Pairwise fun d e => d.ctrl.ready reads = true → e.ctrl.Silent sys reads)
    (ha : (round sys reads ds).again = true) : (round sys reads ds).accepts = [] := by
  induction ds generalizing reads with
  | nil => rfl
  | cons d ds ih =>
    obtain ⟨hd, hds⟩ := List.forall_mem_cons.mp hf
    obtain ⟨hhead, htail⟩ := List.pairwise_cons.mp h
    have hsub := handleCtrl_reads sys reads d.ctrl
    cases hr : d.ctrl.ready reads with
    | true =>
      -- everything behind is silent
      rw [round_cons] at ha
      rw [handleCtrl_ready sys hr] at ha
      dsimp only at ha
      rw [if_neg (by simp)] at ha
      split at ha
      · cases ha
      · rw [round_silent hds fun e he => hhead e he hr] at ha
        cases ha
    | false =>
      have hacc : (handleCtrl sys reads d.ctrl).accepted = false := by
        rw [handleCtrl_waiting sys hr]
      rw [round_cons] at ha ⊢
      dsimp only at ha ⊢
      rw [hacc, if_neg Bool.false_ne_true]
      by_cases hcmd : (handleCtrl sys reads d.ctrl).command.isSome = true
      · rw [if_pos hcmd]
      · rw [if_neg hcmd] at ha ⊢
        by_cases hp : d.piped (handleCtrl sys reads d.ctrl).reads = true
        · rw [if_pos hp] at ha
          cases ha
        · rw [if_neg hp] at ha ⊢
          refine ih hds (htail.imp fun {x y} hxy hx => ?_) ha
          exact (hxy (isSet_sub hsub hx)).sub hsub

/-! ## What commands do -/

theorem Kept.quiet (h : Kept d e) (hq : d.ctrl.Quiet) : e.ctrl.Quiet := by
  rw [h.ctrl]
  exact hq

theorem isSet_neg (reads : FdSet) : isSet (-1) reads = false := rfl

theorem Kept.piped (h : Kept d e) (hp : e.piped reads = true) : d.piped reads = true := by
  unfold Display.piped at hp ⊢
  rw [Bool.or_eq_true] at hp ⊢
  refine hp.imp (fun hs => ?_) fun hs => ?_
  · rcases h.pipe with he | he
    · rw [← he]
      exact hs
    · rw [he, isSet_neg] at hs
      cases hs
  · rcases h.gpipe with he | he
    · rw [← he]
      exact hs
    · rw [he, isSet_neg] at hs
      cases hs

theorem Fresh.quiet (h : Fresh d) : d.ctrl.Quiet := by
  rw [h.ctrl]
  exact List.forall_mem_nil _

theorem Fresh.piped (h : Fresh d) : d.piped reads = false := by
  unfold Display.piped
  rw [h.pipe, h.gpipe, isSet_neg]
  rfl

theorem mem_kept {l l' : List Display} (h : List.Forall₂ Kept l l') (he : e ∈ l') :
    ∃ d ∈ l, Kept d e := by
  induction h with
  | nil => cases he
  | @cons a b _ _ hab _ ih =>
    rcases List.mem_cons.mp he with rfl | he
    · exact ⟨a, List.mem_cons_self, hab⟩
    · obtain ⟨d, hd, hk⟩ := ih he
      exact ⟨d, List.mem_cons_of_mem _ hd, hk⟩

theorem Waiting.kept {l l' : List Display} (hk : List.Forall₂ Kept l l') (h : Waiting reads l) :
    Waiting reads l' := by
  induction hk with
  | nil => exact h
  | @cons a b l l' hab hrest ih =>
    obtain ⟨hready, hpiped⟩ := ih h.tail
    refine ⟨List.forall_mem_cons.mpr ⟨?_, hready⟩,
      List.pairwise_cons.mpr ⟨fun e he hp => ?_, hpiped⟩⟩
    · refine (h.ready a List.mem_cons_self).imp hab.quiet fun hr => ?_
      rw [hab.ctrl]
      exact hr
    · obtain ⟨d, hd, hde⟩ := mem_kept hrest he
      exact hde.quiet (h.head (hab.piped hp) d hd)

variable {x y : Records}

/-- A connection that is left was there before. -/
theorem Processed.mem (h : Processed x y) (he : e ∈ y.displays) :
    Fresh e ∨ ∃ d ∈ x.displays, Kept d e := by
  obtain ⟨news, stay, kept, hy, hnews, hstay, hkept⟩ := h.displays
  rw [hy] at he
  rcases List.mem_append.mp he with he | he
  · exact .inl (hnews e he)
  · obtain ⟨d, hd, hk⟩ := mem_kept hkept he
    exact .inr ⟨d, hstay.subset hd, hk⟩

theorem Processed.waiting (h : Processed x y) (hw : Waiting reads x.displays) :
    Waiting reads y.displays := by
  obtain ⟨news, stay, kept, hy, hnews, hstay, hkept⟩ := h.displays
  have hs : Waiting reads stay :=
    ⟨fun d hd => hw.ready d (hstay.subset hd), hw.piped.sublist hstay⟩
  obtain ⟨hready, hpiped⟩ := hs.kept hkept
  rw [hy]
  refine ⟨fun d hd => ?_, List.pairwise_append.mpr ⟨?_, hpiped, fun d hd e _ hp => ?_⟩⟩
  · rcases List.mem_append.mp hd with hd | hd
    · exact .inl (hnews d hd).quiet
    · exact hready d hd
  · exact List.pairwise_of_forall_mem_list fun _ _ e he _ => (hnews e he).quiet
  · rw [(hnews d hd).piped] at hp
    cases hp

/-! ## Runs -/

variable {s s' : State}

/-- **The invariant** of the loop. -/
structure Inv (s : State) : Prop where
  filled : s.ctrl.Filled
  filledDisplays : ∀ d ∈ s.displays, d.ctrl.Filled
  ids : (s.displays.map Display.id).Nodup
  ctrl : s.ctrl.Quiet
  select : s.pc = .select → ∀ d ∈ s.displays, d.ctrl.Quiet
  again : ∀ reads, s.pc = .again reads →
    Waiting reads s.displays ∧ (s.accepts = [] ∨ s.accepts = [none])
  accepts : s.accepts.Nodup

theorem quiet_of_nil (h : cr.css = []) : cr.Quiet := by
  unfold CtrlRec.Quiet
  rw [h]
  exact List.forall_mem_nil _

theorem filled_of_nil (h : cr.css = []) : cr.Filled := by
  unfold CtrlRec.Filled
  rw [h]
  exact List.forall_mem_nil _

theorem quiet_of_css {cr' : CtrlRec} (h : cr.Quiet) (he : cr'.css = cr.css ∨ cr'.css = []) :
    cr'.Quiet := by
  rcases he with he | he
  · unfold CtrlRec.Quiet
    rw [he]
    exact h
  · exact quiet_of_nil he

theorem filled_of_css {cr' : CtrlRec} (h : cr.Filled) (he : cr'.css = cr.css ∨ cr'.css = []) :
    cr'.Filled := by
  rcases he with he | he
  · unfold CtrlRec.Filled
    rw [he]
    exact h
  · exact filled_of_nil he

theorem Processed.connections (h : Processed x y) : y.ctrl.css = x.ctrl.css ∨ y.ctrl.css = [] :=
  h.ctrl.imp_left (congrArg CtrlRec.css)

theorem Processed.filled (h : Processed x y) (hf : ∀ d ∈ x.displays, d.ctrl.Filled) :
    ∀ d ∈ y.displays, d.ctrl.Filled := by
  intro e he
  rcases h.mem he with hn | ⟨d, hd, hk⟩
  · rw [hn.ctrl]
    exact List.forall_mem_nil _
  · rw [hk.ctrl]
    exact hf d hd

theorem Processed.quiet (h : Processed x y) (hq : ∀ d ∈ x.displays, d.ctrl.Quiet) :
    ∀ d ∈ y.displays, d.ctrl.Quiet := by
  intro e he
  rcases h.mem he with hn | ⟨d, hd, hk⟩
  · exact hn.quiet
  · exact hk.quiet (hq d hd)

namespace Inv

theorem other (h : Inv s) (hs : s.pc = .select) (ho : Others s.toRecords y) :
    Inv { s with toRecords := y } where
  filled := filled_of_css h.filled ho.ctrl
  filledDisplays := by
    intro d hd
    rcases ho.displays d hd with he | ⟨b, hb, he⟩
    · exact filled_of_nil he
    · exact filled_of_css (h.filledDisplays b hb) (.inl he)
  ids := ho.ids
  ctrl := quiet_of_css h.ctrl ho.ctrl
  select := by
    intro _ d hd
    rcases ho.displays d hd with he | ⟨b, hb, he⟩
    · exact quiet_of_nil he
    · exact quiet_of_css (h.select hs b hb) (.inl he)
  again := by
    intro reads hp
    rw [show s.pc = .again reads from hp] at hs
    cases hs
  accepts := h.accepts

/-- The global socket, with one command at most from each connection. -/
theorem woken_quiet (h : Inv s) (hone : ∀ cs ∈ s.ctrl.css, reads.contains cs.fd = true →
    (cs.read (sys.recv cs.fd)).count EOL ≤ 1) : (s.woken sys reads).ctrl.Quiet := by
  show (handleCtrl sys reads s.ctrl).ctrl.Quiet
  cases hr : s.ctrl.ready reads with
  | true =>
    rw [handleCtrl_ready sys hr]
    exact h.ctrl.acceptSock sys
  | false =>
    rw [handleCtrl_waiting sys hr]
    exact handleChans_single h.filled h.ctrl hone

theorem ready (h : Inv s) (hs : s.pc = .select)
    (hone : ∀ cs ∈ s.ctrl.css, reads.contains cs.fd = true →
      (cs.read (sys.recv cs.fd)).count EOL ≤ 1)
    (hp : (handleCtrl sys reads s.ctrl).command.isSome = true → Processed (s.woken sys reads) y)
    (he : step (.ready reads sys y) s = some s') : Inv s' := by
  have hquiet := h.woken_quiet hone
  have hfilled : (s.woken sys reads).ctrl.Filled := handleCtrl_filled h.filled
  have haccepts : (if (handleCtrl sys reads s.ctrl).accepted then [none] else [] :
      List (Option Nat)) = [] ∨
      (if (handleCtrl sys reads s.ctrl).accepted then [none] else [] : List (Option Nat)) =
        [none] := by
    split
    · exact .inr rfl
    · exact .inl rfl
  have hnodup : (if (handleCtrl sys reads s.ctrl).accepted then [none] else [] :
      List (Option Nat)).Nodup := by
    rcases haccepts with ha | ha
    · rw [ha]
      exact List.nodup_nil
    · rw [ha]
      exact List.pairwise_singleton _ _
  unfold step at he
  dsimp only at he
  rw [hs] at he
  dsimp only at he
  by_cases hcmd : (handleCtrl sys reads s.ctrl).command.isSome = true
  · rw [if_pos hcmd] at he
    cases he
    have hproc := hp hcmd
    exact ⟨filled_of_css hfilled hproc.connections, hproc.filled h.filledDisplays, hproc.ids,
      quiet_of_css hquiet hproc.connections, fun _ => hproc.quiet (h.select hs), nofun, hnodup⟩
  · rw [if_neg hcmd] at he
    cases he
    refine ⟨hfilled, h.filledDisplays, h.ids, hquiet, nofun, fun reads' hr => ?_, hnodup⟩
    exact ⟨Waiting.of_quiet (h.select hs), haccepts⟩

theorem turn (h : Inv s) (hs : s.pc = .again reads)
    (hcalm : s.displays.Pairwise fun d e => d.ctrl.ready reads = true → e.ctrl.Silent sys reads)
    (hp : (round sys reads s.displays).again = true → Processed (s.turned sys reads) y)
    (he : step (.turn sys y) s = some s') : Inv s' := by
  obtain ⟨hw, hacc⟩ := h.again reads hs
  have hfilled : ∀ d ∈ (round sys reads s.displays).displays, d.ctrl.Filled :=
    round_filled h.filledDisplays
  unfold step at he
  dsimp only at he
  rw [hs] at he
  dsimp only at he
  by_cases hagain : (round sys reads s.displays).again = true
  · rw [if_pos hagain] at he
    cases he
    have hproc := hp hagain
    have hnone := round_again h.filledDisplays hcalm hagain
    have hwait := round_waiting h.filledDisplays hw hagain hnone
    refine ⟨filled_of_css h.filled hproc.connections, hproc.filled hfilled, hproc.ids,
      quiet_of_css h.ctrl hproc.connections, nofun, fun reads' hr => ?_, ?_⟩
    · cases hr
      rw [hnone, List.append_nil]
      exact ⟨hproc.waiting hwait, hacc⟩
    · rw [hnone, List.append_nil]
      exact h.accepts
  · rw [if_neg hagain] at he
    cases he
    have hno := Bool.eq_false_iff.mpr hagain
    refine ⟨h.filled, hfilled, ?_, h.ctrl, fun _ => round_quiet h.filledDisplays hw hno, nofun, ?_⟩
    · show ((round sys reads s.displays).displays.map Display.id).Nodup
      rw [round_ids]
      exact h.ids
    · have hids : ((s.displays.map fun d => some d.id) : List (Option Nat)).Nodup := by
        have := h.ids.map (f := some) fun _ _ he => Option.some.inj he
        rw [List.map_map] at this
        exact this
      have hsub := round_accepts sys reads s.displays
      refine List.nodup_append.mpr ⟨h.accepts, hids.sublist hsub, ?_⟩
      rintro a ha _ hb rfl
      obtain ⟨d, _, rfl⟩ := List.mem_map.mp (hsub.subset hb)
      rcases hacc with hacc | hacc
      · rw [hacc] at ha
        cases ha
      · rw [hacc] at ha
        cases List.mem_singleton.mp ha

theorem step {e : Event} (h : Inv s) (ha : Allowed s e) (hc : Calm s e)
    (he : Loop.step e s = some s') : Inv s' := by
  cases e with
  | other y =>
    cases hs : s.pc with
    | select =>
      unfold Loop.step at he
      dsimp only at he
      rw [hs] at he
      cases he
      rw [← hs]
      exact h.other hs ha
    | again reads =>
      unfold Loop.step at he
      dsimp only at he
      rw [hs] at he
      cases he
  | ready reads sys y =>
    cases hs : s.pc with
    | select => exact h.ready hs hc ha he
    | again reads' =>
      unfold Loop.step at he
      dsimp only at he
      rw [hs] at he
      cases he
  | turn sys y =>
    cases hs : s.pc with
    | select =>
      unfold Loop.step at he
      dsimp only at he
      rw [hs] at he
      cases he
    | again reads => exact h.turn hs (hc reads hs) (ha reads hs) he

end Inv

/-- **No command is stranded** and no socket is asked twice, in a run whose steps meet the
condition. -/
theorem settled_of_calm (h : Reaches step Init (fun s e => Allowed s e ∧ Calm s e) s) :
    Settled s := by
  have hinv : Inv s := by
    refine h.invariant ?_ fun s e s' hi hc he => hi.step hc.1 hc.2 he
    rintro s ⟨hpc, hacc, hcss, hds⟩
    refine ⟨filled_of_nil hcss, ?_, ?_,
      quiet_of_nil hcss, fun _ => ?_, ?_, ?_⟩
    · rw [hds]
      exact List.forall_mem_nil _
    · rw [hds]
      exact List.nodup_nil
    · rw [hds]
      exact List.forall_mem_nil _
    · intro reads hr
      rw [hpc] at hr
      cases hr
    · rw [hacc]
      exact List.nodup_nil
  exact ⟨fun _ => hinv.ctrl, hinv.select, hinv.accepts⟩

namespace Sample

/-- One client is waiting, and it sends `bytes`. -/
def client (bytes : List UInt8) : Sys := ⟨fun _ => bytes, fun _ => true, fun _ => some 7⟩

def start : State := ⟨⟨⟨5, []⟩, []⟩, .select, []⟩

theorem start_init : Init start := ⟨rfl, rfl, rfl, rfl⟩

/-- The records when the client's command has been processed and `rest` was behind it. -/
def answered (rest : List UInt8) : Records := ⟨⟨5, [⟨7, rest, rest.length⟩]⟩, []⟩

theorem processed_answered (rest : List UInt8) : Processed (answered rest) (answered rest) :=
  ⟨.inl rfl, ⟨[], [], [], rfl, List.forall_mem_nil _, List.Sublist.slnil, .nil⟩, List.nodup_nil⟩

theorem calm_single : ∀ cs ∈ (answered []).ctrl.css, List.contains [7] cs.fd = true →
    (cs.read [97, EOL]).count EOL ≤ 1 := by decide

end Sample

/-- A client connects and sends one command. -/
theorem settled_single : ∃ s : State, s.toRecords = Sample.answered [] ∧ Settled s := by
  have h0 : Reaches step Init (fun s e => Allowed s e ∧ Calm s e) Sample.start :=
    ⟨[], .start Sample.start_init⟩
  have h1 := h0.next (e := .ready [5] (Sample.client []) (Sample.answered []))
    (by exact ⟨nofun, nofun⟩) rfl
  have h2 := h1.next (e := .turn (Sample.client []) (Sample.answered []))
    (by exact ⟨fun _ _ => nofun, fun _ _ => List.Pairwise.nil⟩) rfl
  have h3 := h2.next (e := .ready [7] (Sample.client [97, EOL]) (Sample.answered []))
    (by exact ⟨fun _ => Sample.processed_answered [], Sample.calm_single⟩) rfl
  exact ⟨_, rfl, settled_of_calm h3⟩

/-- Of two commands in one read, the second is left in the buffer. -/
theorem not_settled_behind : ¬ ∀ s : State, Reaches step Init Allowed s → Settled s := by
  intro h
  have h0 : Reaches step Init Allowed Sample.start := ⟨[], .start Sample.start_init⟩
  have h1 := h0.next (e := .ready [5] (Sample.client []) (Sample.answered [])) (by exact nofun) rfl
  have h2 := h1.next (e := .turn (Sample.client []) (Sample.answered []))
    (by exact fun _ _ => nofun) rfl
  have h3 := h2.next
    (e := .ready [7] (Sample.client [97, EOL, 98, EOL]) (Sample.answered [98, EOL]))
    (by exact fun _ => Sample.processed_answered [98, EOL]) rfl
  have hc := (h _ h3).ctrl rfl ⟨7, [98, EOL], 2⟩ List.mem_cons_self
  exact absurd hc (by decide)

end Kdm.Control.Loop
