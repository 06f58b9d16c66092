import Kdm.Backend.Reap
import Kdm.Backend.Logins
import Kdm.Backend.Text

/-!
# Messages from session processes and greeters (`process.c`, `dm.c`)

A conversation over a pipe may end at any byte: a short read or a failed write runs `gErr`,
which closes the pipe and jumps back to the start of the handler.  `Talk` is that control
flow, with the state as it was when the jump happened; the handlers then stop the display.
-/

namespace Kdm

abbrev Talk := EStateM Unit State

namespace Talk

/-- A change of the daemon's variables. -/
def update (f : State → State) : Talk Unit := fun s => .ok () (f s)

/-- `gErr`. -/
def gErr {α : Type} (w : Pipe) (i : Id) : Talk α := fun s => .error () (gClosen w i s)

/-- `gRead`. -/
def gRead (w : Pipe) (i : Id) (n : Nat) : Talk (List UInt8) := fun s =>
  if n ≤ s.env.rx.length then
    .ok (s.env.rx.take n) { s with env := { s.env with rx := s.env.rx.drop n } }
  else gErr w i { s with env := { s.env with rx := [] } }

/-- `gWrite`s that send one item; a zero answer of the kernel is a failure. -/
def gWrite (w : Pipe) (i : Id) (m : Sent) : Talk Unit := fun s =>
  let (x, s) := s.answer
  if x = 0 then gErr w i s else .ok () { s with env := { s.env with tx := m :: s.env.tx } }

/-- `gRecvInt`. -/
def gRecvInt (w : Pipe) (i : Id) : Talk Int := do
  let b ← gRead w i 4
  return int32 b

def gMalloc (w : Pipe) (i : Id) : Talk Unit := fun s =>
  let (ok, s) := s.malloc
  if ok then .ok () s else gErr w i s

/-- `_gRecvArr`: no bytes follow a length of 0 or one that is too large. -/
def gRecvArr (w : Pipe) (i : Id) : Talk (Option (List UInt8)) := do
  let b ← gRead w i 4
  if uint32 b = 0 ∨ 0x10000 < uint32 b then return none
  else
    gMalloc w i
    let bs ← gRead w i (uint32 b)
    return some bs

/-- `gRecvStr`. -/
def gRecvStr (w : Pipe) (i : Id) : Talk (Option String) := do
  let bs ← gRecvArr w i
  return bs.map bytesString

/-- `gSendInt`. -/
def gSendInt (w : Pipe) (i : Id) (v : Int) : Talk Unit := gWrite w i (.int v)

def sendAll (w : Pipe) (i : Id) : List Sent → Talk Unit
  | [] => return ()
  | m :: ms => do gWrite w i m; sendAll w i ms

end Talk

open Talk

/-- `gRecvCmd`: a short read is the end of the conversation, not an error. -/
def gRecvCmd (s : State) : Option Int × State :=
  if 4 ≤ s.env.rx.length then
    (some (int32 (s.env.rx.take 4)), { s with env := { s.env with rx := s.env.rx.drop 4 } })
  else (none, { s with env := { s.env with rx := [] } })

/-! ## Messages of the session process -/

def D_User : Int := 1
def D_ReLogin : Int := 2
def D_ChooseHost : Int := 4
def D_RemoteHost : Int := 5
def D_XConnOk : Int := 6
def D_UnUser : Int := 7

/-- `setNLogin`. -/
def setNLogin (name : String) (nuser npass nargs : Option String) (rl : Nat) (s : State) : State :=
  let (ok, s) := s.malloc
  s.modifyHist name fun he =>
    { he with nuser := nuser, npass := npass, nargs := nargs, rLogin := if ok then rl else 0 }

/-- What `D_UnUser` finds in the display's own shutdown record. -/
inductive UnUser where
  /-- no request -/
  | nothing
  /-- the user has to be asked -/
  | ask
  /-- the request takes the place of the global one -/
  | accept
  /-- a forced shutdown stands against it -/
  | drop
  deriving DecidableEq, Repr

def unUser (d : Display) (s : State) : UnUser :=
  if d.sdRec.how = 0 then .nothing
  else if d.sdRec.force = SHUT_ASK ∧ (anyUserLogins (-1) s ∨ d.conf.allowShutdown = .root) then .ask
  else if s.sdRec.how = 0 ∨ s.sdRec.force ≠ SHUT_FORCE ∨
      ¬((d.conf.allowNuke = .none ∧ s.sdRec.uid ≠ d.sdRec.uid) ∨
        (d.conf.allowNuke = .root ∧ d.sdRec.uid ≠ 0)) then .accept
  else .drop

/-- The `D_UnUser` case up to its answer. -/
def applyUnUser (i : Id) (s : State) : State :=
  s.withDisplay i fun d s =>
    let clear := s.modify i fun d => { d with sdRec := { d.sdRec with how := 0, osname := none } }
    match unUser d s with
    | .nothing | .ask => s
    | .accept => { clear with sdRec := d.sdRec }
    | .drop => clear

/-- Whether `D_UnUser` is answered with `True`. -/
def unUserAsks (i : Id) (s : State) : Bool :=
  match s.find i with
  | some d => unUser d s == .ask
  | none => false

/-- The `switch` of `processDPipe`. -/
def dpyCommand (i : Id) (cmd : Int) : Talk Unit :=
  if cmd = D_User then do
    let uid ← gRecvInt .pipe i
    update (·.modify i fun d => { d with userSess := uid })
    let user ← gRecvStr .pipe i
    update (·.modify i fun d => { d with userName := user })
    let sess ← gRecvStr .pipe i
    update (·.modify i fun d => { d with sessName := sess })
  else if cmd = D_UnUser then do
    update (sessionDone i)
    let s ← get
    update (applyUnUser i)
    gSendInt .pipe i (if unUserAsks i s then 1 else 0)
  else if cmd = D_ReLogin then do
    let user ← gRecvStr .pipe i
    let pass ← gRecvStr .pipe i
    let args ← gRecvStr .pipe i
    update fun s => s.withDisplay i fun d s => setNLogin d.name user pass args 1 s
  else if cmd = D_ChooseHost then do
    let _ ← gRecvArr .pipe i
    let _ ← gRecvArr .pipe i
    let _ ← gRecvInt .pipe i
    let _ ← gRecvArr .pipe i
  else if cmd = D_RemoteHost then do
    update (·.modify i fun d => { d with remoteHost := none })
    let host ← gRecvStr .pipe i
    update (·.modify i fun d => { d with remoteHost := host })
  else if cmd = D_XConnOk then
    update fun s => { s with startingServer := none }
  else
    update (stopDisplay i)

/-- A handler's end: after a jump the display is stopped. -/
def finishTalk (i : Id) : EStateM.Result Unit State Unit → State
  | .ok _ s => s
  | .error _ s => stopDisplay i s

/-- `processDPipe`. -/
def processDPipe (i : Id) (s : State) : State :=
  match gRecvCmd s with
  | (none, s) => unregisterPipe .pipe i s
  | (some cmd, s) => finishTalk i (dpyCommand i cmd s)

/-! ## Messages of the greeter -/

def G_Shutdown : Int := 101
def G_List : Int := 111
def G_QueryShutdown : Int := 112
def G_Activate : Int := 113
def G_ListBootOpts : Int := 114
def G_Console : Int := 116
def G_QryDpyShutdown : Int := 118

/-- The low bits of the `G_List` flags. -/
def ListFlags.ofInt (v : Int) : ListFlags :=
  ⟨decide (v % 2 = 1), decide (v / 2 % 2 = 1), decide (v / 4 % 2 = 1)⟩

/-- `emitXSessG` and `emitTTYSessG`. -/
def emitSessG (i : Id) : Session → List Sent
  | .x di =>
    [.str (some di.name), .str (some ""), .int di.serverVT] ++
      (if di.status = .remoteLogin then [.str (some ""), .str di.remoteHost]
        else [.str di.userName, .str di.sessName]) ++
      [.int (if di.id = i then 1 else 0)]
  | .tty ut =>
    [.str (some ut.line), .str (some ut.host), .int (ttyToVT ut.line),
      .str (if ut.userProcess then some ut.user else none), .str none, .int 2]

/-- The outcome of `setBootOption`: the option name is kept when the boot manager has it. -/
def setBootOption (option : Option String) (s : State) : BootRet × Option String :=
  match option with
  | none => (.ok, none)
  | some o => if s.env.bootOption = .ok then (.ok, some o) else (s.env.bootOption, none)

/-- `stopToTTY`. -/
def stopToTTY (i : Id) (s : State) : State :=
  s.withDisplay i fun d s =>
    if d.isLocal then
      match d.status with
      | .reserve | .textMode => s
      | _ => rStopDisplay i (.textMode true) s
    else s

/-- The `G_Console` case. -/
def gConsole (s : State) : State :=
  if s.conf.consoleTTYs = [] then s else checkTTYMode (forEachDisplay stopToTTY s)

def updateSd (f : SdRec → SdRec) : Talk Unit := update fun s => { s with sdRec := f s.sdRec }

/-- The `switch` of `processGPipe`.  `G_Shutdown` writes to `sdRec` while it receives. -/
def greeterCommand (i : Id) (cmd : Int) : Talk Unit :=
  if cmd = G_ListBootOpts then do
    let s ← get
    match s.env.bootOptions with
    | some (opts, dflt, curr) =>
      sendAll .gpipe i [.int BootRet.ok.code, .argv opts, .int dflt, .int curr]
    | none => gSendInt .gpipe i s.env.bootOption.code
  else if cmd = G_Shutdown then do
    let how ← gRecvInt .gpipe i
    updateSd fun r => { r with how := bits2 how }
    let start ← gRecvInt .gpipe i
    updateSd fun r => { r with start := start, given := start }
    let timeout ← gRecvInt .gpipe i
    updateSd fun r => { r with timeout := timeout }
    let force ← gRecvInt .gpipe i
    updateSd fun r => { r with force := bits2 force }
    let uid ← gRecvInt .gpipe i
    updateSd fun r => { r with uid := uid }
    let option ← gRecvStr .gpipe i
    let s ← get
    updateSd fun r => { r with osname := (setBootOption option s).2 }
  else if cmd = G_QueryShutdown then do
    let s ← get
    sendAll .gpipe i [.int s.sdRec.how.val, .int s.sdRec.start, .int s.sdRec.timeout,
      .int s.sdRec.force.val, .int s.sdRec.uid, .str s.sdRec.osname]
  else if cmd = G_QryDpyShutdown then do
    let s ← get
    match s.find i with
    | some d => sendAll .gpipe i [.int d.sdRec.how.val, .int d.sdRec.uid, .str d.sdRec.osname]
    | none => return ()
  else if cmd = G_List then do
    let flags ← gRecvInt .gpipe i
    let s ← get
    sendAll .gpipe i ((listSessions (.ofInt flags) s).flatMap (emitSessG i))
    gSendInt .gpipe i 0
  else if cmd = G_Activate then do
    let _ ← gRecvInt .gpipe i
  else if cmd = G_Console then
    update gConsole
  else
    update (stopDisplay i)

/-- `processGPipe`. -/
def processGPipe (i : Id) (s : State) : State :=
  match gRecvCmd s with
  | (none, s) => unregisterPipe .gpipe i s
  | (some cmd, s) => finishTalk i (greeterCommand i cmd s)

end Kdm
