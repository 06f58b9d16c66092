import Mathlib.Algebra.Ring.Int.Defs
import Mathlib.Algebra.Ring.Nat
import Mathlib.Data.Int.Notation
import Mathlib.Data.Fin.Basic

/-!
# Data model of the master daemon

The types of `kdm/backend/dm.h` and `greet.h` that the display state machine of the master
daemon works on, for the Linux build (`HAVE_VTS`, `XDMCP`, `SINGLE_PIPE`, `CLOCK_MONOTONIC`).

A `struct display` is identified by the number it got when it was created, which stands for
its address: the C code compares display pointers, and a freed display never comes back.
File descriptors and process ids are `Int` with `-1` for "none", as in the source; `int`
values that arrive from a pipe or from `strtol` are wrapped to 32 bits where the source
stores them.
-/

namespace Kdm

/-- Identity (address) of a `struct display`. -/
abbrev Id := Nat

/-- `TO_INF`: "no timeout". -/
def TO_INF : Int := 0x7fffffff

/-- What a 32-bit `int` holds after the assignment of `x`. -/
def toInt (x : Int) : Int := (x + 0x80000000) % 0x100000000 - 0x80000000

instance neZero_four : NeZero 4 := ⟨by decide⟩

/-- What a two-bit field holds after the assignment of `x`. -/
def bits2 (x : Int) : Fin 4 := Fin.ofNat 4 (x % 4).toNat

/-! ## Enumerations -/

/-- `enum displayStatus`. -/
inductive DisplayStatus where
  /-- waiting for being started -/
  | notRunning
  | running
  /-- manager and server killed, remove or suspend when both are gone -/
  | zombie
  /-- server killed, restart when it dies -/
  | phoenix
  /-- manager killed, restart when it dies -/
  | raiser
  /-- suspended, console mode -/
  | textMode
  /-- suspended, reserve display -/
  | reserve
  /-- running `X -query` -/
  | remoteLogin
  deriving DecidableEq, Repr

/-- `enum serverStatus`: progress of an X server start. -/
inductive ServerStatus where
  | ignore
  | awaiting
  | starting
  | terminated
  | killed
  | pausing
  deriving DecidableEq, Repr

/-- A start step is under way: the server was forked, is being killed, or a retry is due. -/
def ServerStatus.inStart : ServerStatus → Bool
  | .starting | .terminated | .killed | .pausing => true
  | .ignore | .awaiting => false

inductive Location where
  | dForeign
  | dLocal
  deriving DecidableEq, Repr

inductive Lifetime where
  | dTransient
  | dReserve
  | dPermanent
  deriving DecidableEq, Repr

inductive Origin where
  | dFromFile
  | dFromXDMCP
  | dFromCommand
  deriving DecidableEq, Repr

/-- The three groups of bits in `displayType`. -/
structure DisplayType where
  location : Location
  lifetime : Lifetime
  origin : Origin
  deriving DecidableEq, Repr

/-- `DS_*`, the end states of `rStopDisplay`; `textMode true` is
`DS_TEXTMODE | DS_SCHEDULE`. -/
inductive EndState where
  | restart
  | textMode (schedule : Bool)
  | reserve
  | remote
  | remove
  deriving DecidableEq, Repr

/-- `endState & DS_MASK`. -/
def EndState.mask : EndState → EndState
  | .textMode _ => .textMode false
  | z => z

/-- `XS_*`: what to do with the X server at session exit. -/
inductive ServerCmd where
  | keep
  | restart
  | retry
  deriving DecidableEq, Repr

/-- The `ShutdownAllowed` and `AllowNuke` policies (`SHUT_NONE`, `SHUT_ROOT`, `SHUT_ALL`). -/
inductive Allow where
  | none
  | root
  | all
  deriving DecidableEq, Repr

/-! ## Shutdown records -/

def SHUT_REBOOT : Fin 4 := 1
def SHUT_HALT : Fin 4 := 2

def SHUT_CANCEL : Fin 4 := 0
def SHUT_FORCEMY : Fin 4 := 1
def SHUT_FORCE : Fin 4 := 2
def SHUT_ASK : Fin 4 := 3

/-- `SdRec`.  `given` is a history variable: the start time as the request gave it, which the
main loop overwrites in `start` once it is reached. -/
structure SdRec where
  how : Fin 4
  force : Fin 4
  uid : Int
  start : Int
  timeout : Int
  osname : Option String
  given : Int
  deriving DecidableEq, Repr

/-- The static initialiser of the global `sdRec`. -/
def SdRec.initial : SdRec := ⟨0, 0, 0, TO_INF, TO_INF, none, TO_INF⟩

/-- A record in zeroed memory (`Calloc` of a display). -/
def SdRec.zero : SdRec := ⟨0, 0, 0, 0, 0, none, 0⟩

/-! ## Displays -/

/-- `CtrlRec`: a control socket with the descriptors of its open connections.  The code never
writes `gid`; `group` is a history variable, the group that `openCtrl` gave the socket. -/
structure CtrlRec where
  css : List Int
  path : Option (List Char)
  fd : Int
  gid : Int
  group : Int
  deriving DecidableEq, Repr

def CtrlRec.closed : CtrlRec := ⟨[], none, -1, 0, 0⟩

/-- The per-display configuration the daemon itself reads. -/
structure DisplayConf where
  authorize : Bool
  resetForAuth : Bool
  terminateServer : Bool
  serverAttempts : Int
  serverTimeout : Int
  openDelay : Int
  startAttempts : Int
  reqSrvVT : Int
  allowShutdown : Allow
  allowNuke : Allow
  deriving DecidableEq, Repr

/-- The configuration of a display whose resources were never loaded: zeroed memory. -/
def DisplayConf.zero : DisplayConf := ⟨false, false, false, 0, 0, 0, 0, 0, .none, .none⟩

/-- `struct display`. -/
structure Display where
  id : Id
  name : String
  displayType : DisplayType
  status : DisplayStatus
  zstatus : EndState
  pid : Int
  serverPid : Int
  serverVT : Int
  follower : Option Id
  serverStatus : ServerStatus
  lastStart : Int
  startTries : Int
  stillThere : Bool
  userSess : Int
  userName : Option String
  sessName : Option String
  sdRec : SdRec
  ctrl : CtrlRec
  pipe : Int
  gpipe : Int
  remoteHost : Option String
  sessionID : Nat
  fromAddr : String
  displayNumber : Nat
  conf : DisplayConf
  deriving DecidableEq, Repr

def Display.isLocal (d : Display) : Bool := d.displayType.location == .dLocal

/-- The display `newDisplay` builds. -/
def Display.fresh (i : Id) (name : String) : Display where
  id := i
  name := name
  displayType := ⟨.dForeign, .dTransient, .dFromFile⟩
  status := .notRunning
  zstatus := .restart
  pid := -1
  serverPid := -1
  serverVT := 0
  follower := none
  serverStatus := .ignore
  lastStart := 0
  startTries := 0
  stillThere := false
  userSess := -1
  userName := none
  sessName := none
  sdRec := .zero
  ctrl := .closed
  pipe := -1
  gpipe := -1
  remoteHost := none
  sessionID := 0
  fromAddr := ""
  displayNumber := 0
  conf := .zero

/-- `struct disphist`, kept per display name. -/
structure DispHist where
  name : String
  lastExit : Int
  rLogin : Nat
  lock : Bool
  goodExit : Bool
  nuser : Option String
  npass : Option String
  nargs : Option String
  deriving DecidableEq, Repr

/-! ## Global configuration and the utmp file -/

/-- The global configuration the daemon itself reads; `serverVTs` holds the values `atoi`
gives for the configured items. -/
structure GlobalConf where
  consoleTTYs : List String
  fifoDir : String
  fifoGroup : Int
  fifoAllowShutdown : Bool
  fifoAllowNuke : Bool
  requestPort : Int
  autoRescan : Bool
  staticServers : List String
  reserveServers : List String
  serverVTs : List Int
  deriving DecidableEq, Repr

/-- What a utmp record says, with the two questions the daemon asks the system about it:
whether its process still exists and which uid its user has. -/
structure UtEntry where
  line : String
  host : String
  user : String
  userProcess : Bool
  time : Int
  alive : Bool
  uid : Option Int
  deriving DecidableEq, Repr

/-- `enum utState`. -/
inductive UtState where
  | dead
  | wait
  | active
  deriving DecidableEq, Repr

/-- `struct utmps`. -/
structure Utmps where
  time : Int
  state : UtState
  hadSess : Bool
  deriving DecidableEq, Repr

/-- An XDMCP listening socket (`struct socklist`). -/
structure SockList where
  addr : String
  fd : Int
  ref : Bool
  deriving DecidableEq, Repr

/-! ## Exit statuses of session processes -/

/-- What `waitpid` reports about a child. -/
structure WaitStatus where
  sig : Nat
  core : Nat
  code : Nat
  deriving DecidableEq, Repr

def wcCompose (sig core code : Nat) : Nat := sig * 256 + core * 128 + code

def wcFromWait (w : WaitStatus) : Nat := wcCompose w.sig w.core w.code

def SIGTERM : Nat := 15

def EX_NORMAL : Nat := 30
def EX_UNMANAGE_DPY : Nat := 32
def EX_RESERVER_DPY : Nat := 33
def EX_AL_RESERVER_DPY : Nat := 34
def EX_OPENFAILED_DPY : Nat := 35
def EX_RESERVE : Nat := 37
def EX_REMOTE : Nat := 38

end Kdm
