import Kdm.Lib.Runs
import Kdm.Backend.Ctrl

/-!
# The main loop (`dm.c`, `xdmcp.c`)

`mainLoop` as a machine: every step is one stretch of the loop between two points where the
outside world has a say, and the event carries what the world says.  An iteration goes

  `test → kick → shutdown → select → timers → ready → … → test`

and serves one signal, the XDMCP packets, or control commands and one pipe, in the order of
the source.  SIGCHLD leads through `reaping` (one step per child) and `rescan`.

`select` fails when a descriptor of the mask is not open; the loop then only runs its timers.
How long `select` may sleep is not modelled: it returns at some time not before the previous
one and before `TO_INF`.
-/

namespace Kdm

/-! ## XDMCP -/

/-- A packet: a `<manage>` that matches the request it follows, with the display name computed
from it, or one that touches no display. -/
inductive Packet where
  | manage (name fromAddr : String) (displayNumber sessionID : Nat) (withAuth : Bool)
  | other
  deriving DecidableEq, Repr

/-- The end of `manage`: the foreign display is created. -/
def createForeign (name fromAddr : String) (displayNumber sessionID : Nat) (withAuth : Bool)
    (s : State) : State :=
  let (ok, s) := s.malloc
  if ¬ ok then s
  else
    match newDisplay name s with
    | (none, s) => s
    | (some i, s) =>
      let s := s.modify i fun d =>
        { d with
          displayType := ⟨.dForeign, .dTransient, .dFromXDMCP⟩
          sessionID := sessionID
          fromAddr := fromAddr
          displayNumber := displayNumber }
      if withAuth then
        let (ok, s) := s.malloc
        if ok then s else removeDisplay i s
      else s

/-- `manage`: a display of that name is stopped first, then a foreign display is created. -/
def manage (name fromAddr : String) (displayNumber sessionID : Nat) (withAuth : Bool) (s : State) :
    State :=
  createForeign name fromAddr displayNumber sessionID withAuth
    (match findDisplayByName s name with
    | some d => stopDisplay d.id s
    | none => s)

/-! ## Events -/

inductive Signal where
  | SIGTERM
  | SIGINT
  | SIGHUP
  | SIGCHLD
  | SIGUSR1
  deriving DecidableEq, Repr

inductive Event where
  /-- the loop test and, while not stopping, the first two loops of `startDisplays` -/
  | loop (env : Env)
  /-- `forEachDisplay(kickDisplay)` -/
  | kick (env : Env)
  /-- the shutdown record is looked at -/
  | shutdown (env : Env)
  /-- `select` returns at time `now` -/
  | select (now : Int)
  /-- the two timers -/
  | timers (env : Env)
  | signal (sig : Signal) (env : Env)
  /-- `waitpid` returns a child -/
  | child (pid : Int) (status : WaitStatus) (env : Env)
  | childrenDone
  | rescan (env : Env)
  | packet (fd : Int) (p : Packet) (env : Env)
  | accept (x : Option Id) (env : Env)
  | hangup (x : Option Id) (fd : Int)
  | command (x : Option Id) (fd : Int) (line : String) (env : Env)
  | dpipe (i : Id) (env : Env)
  | gpipe (i : Id) (env : Env)
  /-- no further ready descriptor -/
  | idle
  deriving DecidableEq, Repr

/-! ## The stretches of the loop -/

def State.goto (p : Phase) (s : State) : State := { s with phase := p }

def State.withEnv (env : Env) (s : State) : State := { s with env := env }

/-- The condition of the `while`. -/
def loopTest (s : State) : Bool :=
  anyListenSockets s || if s.stopping then anyRunningDisplays s else anyDisplaysLeft s

/-- The loop test and what `startDisplays` does before it kicks the displays. -/
def loopHead (s : State) : State :=
  if loopTest s then
    if s.stopping then s.goto .kick
    else (forEachDisplayRev allocateVT (forEachDisplay checkDisplayStatus s)).goto .kick
  else s.goto .exited

def kickDisplays (s : State) : State :=
  if s.stopping then s else forEachDisplay kickDisplay s

/-- The `if (sdRec.how)` block. -/
def checkShutdown (s : State) : State :=
  if s.sdRec.how = 0 then s
  else if s.sdRec.start ≠ TO_INF ∧ s.now < s.sdRec.start then s
  else
    let s := { s with sdRec := { s.sdRec with start := TO_INF } }
    if s.sdRec.timeout ≤ s.now then
      let s := { s with sdRec := { s.sdRec with timeout := TO_INF } }
      if wouldShutdown s then stoppen true s else cancelShutdown s
    else stoppen false s

/-- Every descriptor of the mask is open. -/
def selectOk (s : State) : Bool := s.wellKnownSocketsMask.all fun fd => (s.fdOwner fd).isSome

/-- The two timer blocks after `select`. -/
def runTimers (s : State) : State :=
  let s := if s.serverTimeout ≤ s.now then startServerTimeout { s with serverTimeout := TO_INF } else s
  if s.utmpTimeout ≤ s.now then checkUtmp { s with utmpTimeout := TO_INF } else s

/-- The `switch` over the signals, and where it leads. -/
def handleSignal (sig : Signal) (s : State) : State :=
  match sig with
  | .SIGTERM | .SIGINT => (stoppen true s).goto .test
  | .SIGHUP => (rescanConfigs true (forEachDisplay markDisplay s)).goto .test
  | .SIGCHLD => s.goto .reaping
  | .SIGUSR1 =>
    match s.startingServer.bind s.find with
    | some d => (if d.serverStatus = .starting then startServerSuccess s else s).goto .test
    | none => s.goto .test

/-- `processRequestSocket`. -/
def processPacket (p : Packet) (s : State) : State :=
  match p with
  | .manage name fromAddr displayNumber sessionID withAuth =>
    manage name fromAddr displayNumber sessionID withAuth s
  | .other => s

/-- The display of a control socket, which must exist. -/
def socketOf (x : Option Id) (s : State) : Option (Option Display) :=
  match x with
  | none => some none
  | some i => (s.find i).map some

/-- The phases in which a control socket is served. -/
def servesCtrl (x : Option Id) (p : Phase) : Bool :=
  match x with
  | none => p == .ready || p == .globalChannels
  | some _ => p == .ready || p == .globalChannels || p == .channels

/-- The phases in which the displays' pipes are served. -/
def servesPipe (p : Phase) : Bool := p == .ready || p == .globalChannels || p == .channels

/-- **The machine of the main loop.** -/
def step (e : Event) (s : State) : Option State :=
  if s.fault ≠ none then none
  else
    match e with
    | .loop env => if s.phase = .test then some (loopHead (s.withEnv env)) else none
    | .kick env =>
      if s.phase = .kick then some ((kickDisplays (s.withEnv env)).goto .shutdown) else none
    | .shutdown env =>
      if s.phase = .shutdown then some ((checkShutdown (s.withEnv env)).goto .select) else none
    | .select now =>
      if s.phase = .select ∧ s.now ≤ now ∧ now < TO_INF then
        some ({ s with now := now }.goto (.timers (selectOk s)))
      else none
    | .timers env =>
      match s.phase with
      | .timers ok => some ((runTimers (s.withEnv env)).goto (if ok then .ready else .test))
      | _ => none
    | .signal sig env =>
      if s.phase = .ready ∧ s.signalFd ∈ s.wellKnownSocketsMask then
        some (handleSignal sig (s.withEnv env))
      else none
    | .child pid status env =>
      if s.phase = .reaping ∧ 0 < pid then some (reapChild pid status (s.withEnv env)) else none
    | .childrenDone => if s.phase = .reaping then some (s.goto .rescan) else none
    | .rescan env =>
      if s.phase = .rescan then
        let s := s.withEnv env
        some ((if !s.stopping && s.conf.autoRescan then rescanConfigs false s else s).goto .test)
      else none
    | .packet fd p env =>
      if (s.phase = .ready ∨ s.phase = .packets) ∧ fd ∈ s.listensocks.map SockList.fd ∧
          fd ∈ s.wellKnownSocketsMask then
        some ((processPacket p (s.withEnv env)).goto .packets)
      else none
    | .accept x env =>
      match ctrlOf s x with
      | some cr =>
        if servesCtrl x s.phase ∧ 0 ≤ cr.fd ∧ cr.fd ∈ s.wellKnownSocketsMask then
          some ((acceptSock x (s.withEnv env)).goto .channels)
        else none
      | none => none
    | .hangup x fd =>
      match ctrlOf s x with
      | some cr =>
        if servesCtrl x s.phase ∧ fd ∈ cr.css then
          some ((dropSock x fd s).goto (if x = none then .globalChannels else .channels))
        else none
      | none => none
    | .command x fd line env =>
      match ctrlOf s x, socketOf x s with
      | some cr, some d =>
        if servesCtrl x s.phase ∧ fd ∈ cr.css then
          some ((processCtrl d line (s.withEnv env)).2.goto (if x = none then .test else .channels))
        else none
      | _, _ => none
    | .dpipe i env =>
      match s.find i with
      | some d =>
        if servesPipe s.phase ∧ 0 ≤ d.pipe ∧ d.pipe ∈ s.wellKnownSocketsMask then
          some ((processDPipe i (s.withEnv env)).goto .test)
        else none
      | none => none
    | .gpipe i env =>
      match s.find i with
      | some d =>
        if servesPipe s.phase ∧ 0 ≤ d.gpipe ∧ d.gpipe ∈ s.wellKnownSocketsMask then
          some ((processGPipe i (s.withEnv env)).goto .test)
        else none
      | none => none
    | .idle =>
      if s.phase = .packets ∨ servesPipe s.phase then some (s.goto .test) else none

/-! ## Start-up -/

/-- Before `main` has read any configuration. -/
def State.blank : State where
  displays := []
  nextId := 0
  startingServer := none
  serverTimeout := TO_INF
  stopping := false
  sdRec := .initial
  now := 0
  utmpList := none
  utmpTimeout := TO_INF
  modtim := 0
  disphist := []
  wellKnownSocketsMask := []
  listensocks := []
  currentRequestPort := 0
  listenAddrs := []
  ctrl := .closed
  conf := ⟨[], "", 0, false, false, 0, false, [], [], []⟩
  signalFd := -1
  phase := .test
  fds := []
  calls := []
  fault := none
  env := {}

/-- `main` up to the loop: the configuration is read, the signal pipe, the control socket and
the listening sockets are opened, and the clock is read. -/
def boot (env : Env) (now : Int) : Option State :=
  match scanConfigs false (State.blank.withEnv env) with
  | (ret, s) =>
    if ret ≤ 0 then none
    else
      let (fd, s) := s.openFd .signal
      if fd = -1 then none
      else
        let s := { s with signalFd := fd }.registerInput fd
        let s := updateListenSockets (openCtrl none s)
        if 0 ≤ now ∧ now < TO_INF then some { s with now := now } else none

/-- The states in which `mainLoop` may be entered. -/
def initial (s : State) : Prop := ∃ env now, boot env now = some s

/-- Reachable states, through steps that meet `C`. -/
abbrev ReachableBy (C : State → Event → Prop) : State → Prop := Runs.Reaches step initial C

/-- Reachable states. -/
abbrev Reachable : State → Prop := ReachableBy fun _ _ => True

end Kdm
