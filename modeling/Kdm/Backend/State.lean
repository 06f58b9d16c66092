import Kdm.Lib.Keyed
import Kdm.Backend.Types

/-!
# State of the master daemon and its environment

`State` collects the file-scope variables of `dm.c`, `server.c`, `dpylist.c`, `socket.c` and
`ctrl.c`.  `Env` holds what the world answers during one step: the results of system calls in
the order the code makes them, the bytes the peer of a pipe sends, what the configuration
reader delivers, the contents of utmp.

Two components only record what happens.  `fds` is the kernel's descriptor table, with the
use each descriptor was opened for.  `calls` logs the calls whose circumstances the results
speak about, and `fault` an access through a null or stale display pointer.
-/

namespace Kdm

/-- What a descriptor was opened for. -/
inductive Owner where
  | signal
  | listen
  | ctrl (d : Option Id)
  | conn (d : Option Id)
  | pipe (d : Id)
  | gpipe (d : Id)
  deriving DecidableEq, Repr

/-- Where the main loop stands. -/
inductive Phase where
  /-- at the loop test -/
  | test
  /-- before `kickDisplay` is run over the displays -/
  | kick
  /-- before the shutdown record is looked at -/
  | shutdown
  /-- entering `select` -/
  | select
  /-- `select` returned, with an error or not, and the clock was read -/
  | timers (ok : Bool)
  /-- serving the ready descriptors -/
  | ready
  /-- in the loop over the XDMCP sockets -/
  | packets
  /-- in the loop over the connections of the global control socket -/
  | globalChannels
  /-- in the loop over the displays' descriptors -/
  | channels
  /-- in the `waitpid` loop -/
  | reaping
  /-- after the `waitpid` loop -/
  | rescan
  /-- `mainLoop` returned -/
  | exited
  deriving DecidableEq, Repr

/-- Accesses that a run does not survive. -/
inductive Fault where
  /-- `startServerTimeout` with `startingServer == NULL` -/
  | startServerTimeout
  /-- `startServerFailed` with `startingServer == NULL` -/
  | startServerFailed
  deriving DecidableEq, Repr

/-- Logged calls, with the status the display had. -/
inductive Call where
  | startServer (d : Id) (status : DisplayStatus)
  | startDisplayP2 (d : Id) (status : DisplayStatus)
  /-- the branch of `reapChildren` for a server of a passive display -/
  | passiveServerExit (d : Id) (status : DisplayStatus)
  deriving DecidableEq, Repr

/-- Outcome of a configuration request: an error (with what was applied before it was
noticed), nothing new, or new values. -/
inductive Load (α : Type) where
  | failed (applied : Option α)
  | unchanged
  | loaded (c : α)
  deriving DecidableEq, Repr

/-- Return values of the boot manager access. -/
inductive BootRet where
  | ok
  | noMan
  | noEnt
  | io
  deriving DecidableEq, Repr

/-- An item written to a pipe. -/
inductive Sent where
  | int (v : Int)
  | str (v : Option String)
  | argv (v : List String)
  deriving DecidableEq, Repr

def BootRet.code : BootRet → Int
  | .ok => 0
  | .noMan => -1
  | .noEnt => -2
  | .io => -3

/-- The world's answers during one step. -/
structure Env where
  /-- results of `fork`, `socket`, `accept`, `pipe`, `malloc` and `write`, in call order -/
  sys : List Int := []
  /-- what the peer of the pipe being served sends before it closes its end -/
  rx : List UInt8 := []
  dpyConf : List (Load DisplayConf) := []
  dmConf : Load GlobalConf := .unchanged
  /-- the addresses to listen on that the access database gave, `none` for any address -/
  listenAddrs : Option (List (Option String)) := none
  utmp : Option (Int × List UtEntry) := none
  busyVTs : List Int := []
  bootOption : BootRet := .noMan
  /-- the boot options with the default and the current one, when the boot manager has any -/
  bootOptions : Option (List String × Int × Int) := none
  /-- the wall clock, `time(0)` -/
  wallClock : Int := 0
  /-- what was written to the pipe being served, latest first -/
  tx : List Sent := []
  deriving DecidableEq, Repr

structure State where
  displays : List Display
  nextId : Id
  startingServer : Option Id
  serverTimeout : Int
  stopping : Bool
  sdRec : SdRec
  now : Int
  utmpList : Option Utmps
  utmpTimeout : Int
  modtim : Int
  disphist : List DispHist
  wellKnownSocketsMask : List Int
  listensocks : List SockList
  currentRequestPort : Int
  listenAddrs : List (Option String)
  ctrl : CtrlRec
  conf : GlobalConf
  signalFd : Int
  phase : Phase
  fds : List (Int × Owner)
  calls : List Call
  fault : Option Fault
  env : Env
  deriving DecidableEq, Repr

namespace State

/-! ## The display list -/

/-- Dereference a display pointer. -/
def find (s : State) (i : Id) : Option Display := Keyed.get Display.id s.displays i

/-- Write through a display pointer. -/
def modify (i : Id) (f : Display → Display) (s : State) : State :=
  { s with displays := Keyed.update Display.id s.displays i f }

/-- Run `f` on the display behind the pointer. -/
def withDisplay (i : Id) (f : Display → State → State) (s : State) : State :=
  match s.find i with
  | some d => f d s
  | none => s

def setStatus (i : Id) (st : DisplayStatus) : State → State :=
  modify i fun d => { d with status := st }

def setServerStatus (i : Id) (st : ServerStatus) : State → State :=
  modify i fun d => { d with serverStatus := st }

def setServerPid (i : Id) (pid : Int) : State → State :=
  modify i fun d => { d with serverPid := pid }

def setPid (i : Id) (pid : Int) : State → State :=
  modify i fun d => { d with pid := pid }

/-- Write to the history entry of a display (`d->hstent`). -/
def modifyHist (name : String) (f : DispHist → DispHist) (s : State) : State :=
  { s with disphist := Keyed.update DispHist.name s.disphist name f }

def crash (f : Fault) (s : State) : State := { s with fault := some f }

def log (c : Call) (s : State) : State := { s with calls := c :: s.calls }

/-! ## System calls -/

/-- The next answer of the kernel; past the end of the list, `-1`. -/
def answer (s : State) : Int × State :=
  match s.env.sys with
  | [] => (-1, s)
  | x :: xs => (x, { s with env := { s.env with sys := xs } })

/-- `malloc`: fails when the answer is 0. -/
def malloc (s : State) : Bool × State :=
  let (x, s) := s.answer
  (x ≠ 0, s)

/-- No unreaped child has the pid. -/
def pidFree (s : State) (pid : Int) : Bool :=
  s.displays.all fun d => d.pid ≠ pid && d.serverPid ≠ pid

/-- `fork` in the parent: a positive pid no unreaped child has, or failure. -/
def fork (s : State) : Int × State :=
  let (x, s) := s.answer
  if 0 < x ∧ s.pidFree x then (x, s) else (-1, s)

/-- The use of an open descriptor. -/
def fdOwner (s : State) (fd : Int) : Option Owner := (Keyed.get Prod.fst s.fds fd).map Prod.snd

/-- A call that returns a new descriptor, opened for `o`. -/
def openFd (o : Owner) (s : State) : Int × State :=
  let (x, s) := s.answer
  if 0 ≤ x ∧ s.fdOwner x = none then (x, { s with fds := (x, o) :: s.fds }) else (-1, s)

/-- `close`. -/
def close (fd : Int) (s : State) : State :=
  { s with fds := Keyed.erase Prod.fst s.fds fd }

def registerInput (fd : Int) (s : State) : State :=
  { s with wellKnownSocketsMask := fd :: s.wellKnownSocketsMask }

def unregisterInput (fd : Int) (s : State) : State :=
  { s with wellKnownSocketsMask := s.wellKnownSocketsMask.filter (· ≠ fd) }

end State

/-! ## `dpylist.c` -/

def anyDisplaysLeft (s : State) : Bool := !s.displays.isEmpty

def anyRunningDisplays (s : State) : Bool :=
  s.displays.any fun d =>
    match d.status with
    | .notRunning | .textMode | .reserve => false
    | _ => true

def anyReserveDisplays (s : State) : Bool :=
  s.displays.any fun d => d.displayType.lifetime == .dReserve

def idleReserveDisplays (s : State) : Nat :=
  (s.displays.filter fun d => d.status == .reserve).length

/-- `startReserveDisplay`: wake the last reserve display of the list. -/
def startReserveDisplay (s : State) : Bool × State :=
  match (s.displays.filter fun d => d.status == .reserve).getLast? with
  | some rd => (true, s.setStatus rd.id .notRunning)
  | none => (false, s)

/-- `forEachDisplay`: the list is walked with the successor read before the call, and `f`
removes no display but its own. -/
def forEachDisplay (f : Id → State → State) (s : State) : State :=
  (s.displays.map Display.id).foldl (fun s i => f i s) s

/-- `forEachDisplayRev`. -/
def forEachDisplayRev (f : Id → State → State) (s : State) : State :=
  (s.displays.map Display.id).reverse.foldl (fun s i => f i s) s

def findDisplayByName (s : State) (name : String) : Option Display :=
  Keyed.get Display.name s.displays name

def findDisplayByPid (s : State) (pid : Int) : Option Display :=
  Keyed.get Display.pid s.displays pid

def findDisplayByServerPid (s : State) (serverPid : Int) : Option Display :=
  Keyed.get Display.serverPid s.displays serverPid

def removeDisplay (i : Id) (s : State) : State :=
  { s with displays := Keyed.erase Display.id s.displays i }

/-- The history entry for a new display, created when `findHist` finds none. -/
def histFor (name : String) (s : State) : Bool × State :=
  match Keyed.get DispHist.name s.disphist name with
  | some _ => (true, s)
  | none =>
    let (ok, s) := s.malloc
    if ok then
      (true, { s with disphist := ⟨name, 0, 0, false, false, none, none, none⟩ :: s.disphist })
    else (false, s)

/-- Put the display that `Calloc` delivered at the head of the list. -/
def addDisplay (name : String) (s : State) : State :=
  { s with displays := Display.fresh s.nextId name :: s.displays, nextId := s.nextId + 1 }

/-- `newDisplay`; `none` when memory ran out. -/
def newDisplay (name : String) (s : State) : Option Id × State :=
  let (ok, s) := histFor name s
  if ok then
    let (ok, s) := s.malloc
    if ok then (some s.nextId, addDisplay name s) else (none, s)
  else (none, s)

end Kdm
