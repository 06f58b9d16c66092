import Kdm.Login.Session

/-!
# The greeter talks to the session process

`KGVerify` (`kgverify.cpp`) reads what `verify` has to say, and the plugin that talks to the user replies
through it; `KGreeter` asks for the `.dmrc` of the user, and `main` (`kgapp.cpp`) does what comes before
and behind the dialog.

* `handleVerify` — the reader; `KGChTok`, the dialog for an expired password, has a `KGVerify` of its own,
  and runs within it.
* `Event` — what the user, the plugin and the timers do.
* `greet` — one greeter, from its start to its end.

The plugins and the user are a parameter: in which states which events occur.  Left out are the shutdown
dialogs, the chooser, and the messages to the daemon itself, which go through another pipe.
-/

namespace Kdm.Login

open Dialogue Verify Proc

/-- `KGreeterPlugin::Function`. -/
inductive Func
  | Authenticate
  | AuthChAuthTok
  | ChAuthTok
deriving DecidableEq

inductive CoreState
  | CoreIdle
  | CorePrompting
  | CoreBusy
deriving DecidableEq

/-- What the plugin has been asked. -/
inductive Prompt
  | text (prompt : Option Text) (echo nonBlocking : Code)
  | binary
deriving DecidableEq

/-- The variables of `KGVerify` and `KGreeter`; `timed` is `timedLeft != 0`.  The last three are what the
plugin knows: what it has to reply to, whether it has refused to, and whether it has given a password. -/
structure KG where
  func : Func
  coreState : CoreState
  sockNot : Bool
  running : Bool
  failed : Bool
  timeable : Bool
  timed : Bool
  authTok : Bool
  isClear : Bool
  sendInteract : Bool
  curUser : Text
  needLoad : Bool
  curSel : Option Text
  prevValid : Bool
  prompt : Option Prompt
  gaveUp : Bool
  knows : Bool

inductive Event
  /-- the first key or button -/
  | interact
  /-- a key or button -/
  | activity
  /-- `gplugStart` -/
  | start
  /-- `gplugReturnText` -/
  | returnText (text : Option Text) (tag : Code)
  /-- `gplugReturnBinary` -/
  | returnBinary (data : Option Text)
  /-- another name, by the plugin or in the list of users -/
  | setUser (user : Text)
  /-- the timer of `slotUserEntered` -/
  | load
  | select (type : Text)
  /-- `talkerEdits` -/
  | edit
  /-- the end of the countdown, or the return key in it -/
  | autoLogin
  | reject
  /-- `slotTimeout` without activity -/
  | reset
  /-- `slotTimeout` behind a failure -/
  | retry
  /-- `slotExit` -/
  | exit
  /-- the cancel button of `KGChTok` -/
  | cancel
deriving DecidableEq

/-- What the greeter goes by. -/
structure Ui where
  /-- what the user, the plugin and the timers do in a state -/
  allowed : KG → Event → Bool
  cfgs : List Code
  grabServer : Bool
  /-- `method` of the plugin -/
  method : Text
  timeable : Bool
  autoLoginUser : Text
  autoLoginAgain : Bool
  presEnt : Text
  /-- the sessions that are not hidden -/
  sessionTypes : List Text
  /-- there is a list of users -/
  userShown : Bool

abbrev Greet (α : Type) := Proc KG Item Event α

/-- `"Session"`. -/
def SESSION : Text := [83, 101, 115, 115, 105, 111, 110]

/-- `"default"`. -/
def DEFAULT : Text := [100, 101, 102, 97, 117, 108, 116]

/-! ## `KGreeter` -/

/-- Only while the session process waits for a command. -/
def slotLoadPrevWM (ui : Ui) : Greet Unit := do
  let g ← vars
  if g.coreState ≠ .CoreIdle then assign fun g => { g with needLoad := true }
  else
    assign fun g => { g with needLoad := false, prevValid := true }
    gSendInt G_ReadDmrc
    gSendStr (some g.curUser)
    let _ ← gRecvInt
    if g.curUser ≠ [] then
      gSendInt G_GetDmrc
      gSendStr (some SESSION)
      match ← gRecvStr with
      | none => assign fun g => { g with prevValid := g.prevValid && ui.userShown }
      | some sess =>
        assign fun g => { g with prevValid := g.prevValid && ui.sessionTypes.contains sess }

def slotUserEntered (ui : Ui) (user : Text) : Greet Unit := do
  assign fun g => { g with curUser := user }
  slotLoadPrevWM ui

/-- The session for the user is put into the `.dmrc`. -/
def putSession (type : Text) : Greet Unit := do
  gSendInt G_PutDmrc
  gSendStr (some SESSION)
  gSendStr (some type)

def verifyOk : Greet Unit := do
  let g ← vars
  match g.curSel with
  | some type => putSession type
  | none => if !g.prevValid then putSession DEFAULT

/-- `verifyFailed`: of `KGreeter`, and of `KGChTok`, which does not load. -/
def verifyFailed (ui : Ui) : Greet Unit := do
  let g ← vars
  if g.func = .Authenticate ∧ g.needLoad = true then slotLoadPrevWM ui

/-! ## The plugin -/

def gplugStart (ui : Ui) : Greet Unit := do
  let g ← vars
  if g.coreState = .CoreIdle then
    gSendInt G_Verify
    gSendStr (some ui.method)
    assign fun g => { g with coreState := .CoreBusy, knows := false }

/-- The plugin has given a password if it was asked for it, or has tagged one. -/
def givesPassword (prompt : Option Prompt) (tag : Code) : Bool :=
  match prompt with
  | some (.text none echo _) => echo == flag false
  | some (.text (some _) _ _) => !tagged tag V_IS_USER && tagged tag V_IS_PASSWORD
  | _ => false

def gplugReturnText (text : Option Text) (tag : Code) : Greet Unit := do
  gSendStr text
  match text with
  | some _ =>
    gSendInt tag
    assign fun g => { g with coreState := .CoreBusy, prompt := none, gaveUp := false,
                             knows := g.knows || givesPassword g.prompt tag }
  | none => assign fun g => { g with coreState := .CoreIdle, prompt := none, gaveUp := true }

def gplugReturnBinary (data : Option Text) : Greet Unit := do
  gSendArr data
  match data with
  | some _ => assign fun g => { g with coreState := .CoreBusy, prompt := none, gaveUp := false }
  | none => assign fun g => { g with coreState := .CoreIdle, prompt := none, gaveUp := true }

/-- `abort` of a plugin: what it was asked is refused. -/
def abort : Greet Unit := do
  let g ← vars
  match g.prompt with
  | some (.text _ _ _) => gplugReturnText none 0
  | some .binary => gplugReturnBinary none
  | none => pure ()

/-! ## `KGVerify` -/

/-- The user of the timed login is shown, and the countdown starts. -/
def scheduleAutoLogin (ui : Ui) : Greet Unit := do
  assign fun g => { g with timed := true, sockNot := false, running := false, isClear := true }
  slotUserEntered ui ui.autoLoginUser

def performAutoLogin : Greet Unit := do
  gSendInt G_AutoLogin
  assign fun g => { g with coreState := .CoreBusy, sockNot := true, timed := false, knows := false }

/-- `start` of the dialog for a login; the name of the user is not shown yet, so nothing is loaded. -/
def start (ui : Ui) : Greet Unit := do
  let g ← vars
  if g.timeable then
    assign fun g => { g with curUser := ui.autoLoginUser, timed := true, sockNot := false,
                             running := false, isClear := true, timeable := ui.autoLoginAgain }
  else assign fun g => { g with curUser := ui.presEnt, sockNot := true, running := true }

/-- What `doReject` does when the plugin has nothing to reply to: the next countdown, or the name that is
preset. -/
def clear (ui : Ui) : Greet Unit := do
  slotUserEntered ui []
  assign fun g => { g with curSel := none }
  let g ← vars
  if g.timeable then scheduleAutoLogin ui
  else if g.isClear && ui.presEnt ≠ [] then
    assign fun g => { g with isClear := false }
    slotUserEntered ui ui.presEnt
  else assign fun g => { g with isClear := true }

def doReject (ui : Ui) : Greet Unit := do
  let g ← vars
  if g.running then abort
  clear ui

/-- A `KGVerify` that is about to run within `handleVerify`; the dialog starts in `CoreBusy`. -/
def KG.nested (g : KG) (func : Func) : KG :=
  { g with func := func, coreState := .CoreBusy, sockNot := true, running := true, failed := false,
           timed := false, authTok := func = .ChAuthTok, prompt := none, gaveUp := false }

/-- The `KGVerify` outside, as it was before the dialog. -/
def KG.outer (g : KG) (inner : KG) : KG :=
  { inner with func := g.func, coreState := g.coreState, sockNot := g.sockNot, running := g.running,
               failed := g.failed, timed := g.timed, authTok := g.authTok, prompt := g.prompt,
               gaveUp := g.gaveUp, knows := g.knows }

/-- `KGChTok::exec`: accepted, or cancelled. -/
def execChTok (exec : Greet Bool) (func : Func) : Greet Bool := do
  let g ← vars
  assign fun g => g.nested func
  let ok ← exec
  assign fun inner => g.outer inner
  pure ok

/-- The label `retry`. -/
def retry : Greet (Option Bool) := do
  assign fun g => { g with sockNot := true, running := true, timed := false, gaveUp := false,
                           isClear := g.isClear && g.func ≠ .Authenticate }
  pure none

/-- The plugin has failed: what it has said counts no longer, unless the old password was right. -/
def failedPlugin : Greet Unit :=
  assign fun g => { g with gaveUp := false, knows := g.knows && g.authTok }

/-- A message is displayed and acknowledged. -/
def showMessage : Greet Unit := do
  let _ ← gRecvStr
  gSendInt 0

/-- `V_OK`, or the password has been changed. -/
def acceptVerify : Greet (Option Bool) := do
  let g ← vars
  if g.func = .Authenticate then verifyOk
  pure (some true)

/-- `handleVerify`, for the code that has been read; the dialog goes on, or has a result.  `exec` runs the
dialog for an expired password. -/
def handleVerify (ui : Ui) (exec : Greet Bool) (ret : Code) : Greet (Option Bool) :=
  if ret = V_GET_TEXT then do
    let msg ← gRecvStr
    let echo ← gRecvInt
    let ndelay ← gRecvInt
    assign fun g => { g with coreState := .CorePrompting, prompt := some (.text msg echo ndelay) }
    pure none
  else if ret = V_GET_BINARY then do
    let _ ← gRecvArr
    let _ ← gRecvInt
    assign fun g => { g with coreState := .CorePrompting, prompt := some .binary }
    pure none
  else if ret = V_PUT_USER then do
    assign fun g => { g with coreState := .CoreBusy }
    let msg ← gRecvStr
    let g ← vars
    if g.func = .Authenticate then slotUserEntered ui (msg.getD [])
    pure none
  else if ret = V_PRE_OK then do
    assign fun g => { g with coreState := .CoreBusy, authTok := true }
    pure none
  else if ret = V_MSG_ERR ∨ ret = V_MSG_INFO_AUTH ∨ ret = V_MSG_INFO then do
    assign fun g => { g with coreState := .CoreBusy }
    showMessage
    pure none
  else do
    assign fun g => { g with coreState := .CoreIdle, running := false, sockNot := false }
    if ret = V_CHTOK_AUTH then
      if ← execChTok exec .AuthChAuthTok then acceptVerify else retry
    else if ret = V_CHTOK then
      if ← execChTok exec .ChAuthTok then acceptVerify else retry
    else if ret = V_OK then acceptVerify
    else
      failedPlugin
      if ret = V_AUTH then
        assign fun g => { g with failed := true }
        verifyFailed ui
        pure none
      else if ret = V_FAIL then retry
      else quit

/-- What comes of an event; `none` if the dialog goes on. -/
def userEvent (ui : Ui) : Event → Greet (Option Bool)
  | .interact => do
    let g ← vars
    if g.sendInteract then
      assign fun g => { g with sendInteract := false }
      gSendInt G_Interact
    pure none
  | .activity => do
    assign fun g => if g.timed then { g with timed := false, sockNot := true, running := true } else g
    pure none
  | .start => do
    gplugStart ui
    pure none
  | .returnText text tag => do
    gplugReturnText text tag
    pure none
  | .returnBinary data => do
    gplugReturnBinary data
    pure none
  | .setUser user => do
    slotUserEntered ui user
    pure none
  | .load => do
    slotLoadPrevWM ui
    pure none
  | .select type => do
    assign fun g => { g with curSel := some type }
    pure none
  | .autoLogin => do
    performAutoLogin
    pure none
  | .edit => do
    assign fun g => { g with isClear := g.isClear && g.func ≠ .Authenticate }
    pure none
  | .reject => do
    doReject ui
    pure none
  | .reset => do
    assign fun g => { g with isClear := true }
    doReject ui
    pure none
  | .retry => do
    assign fun g => { g with failed := false, running := true, sockNot := true, timed := false }
    pure none
  | .exit => do
    abort
    quit
  | .cancel => do
    abort
    pure (some false)

/-- The event loop of a dialog, up to its result. -/
def loop (ui : Ui) : Nat → Greet Bool
  | 0 => goOn
  | n + 1 =>
    select KG.sockNot
      (fun i => match i with
        | none => quit
        | some (.int ret) => handleVerify ui (loop ui n) ret >>= fun r => match r with
          | none => loop ui n
          | some ok => pure ok
        | some _ => confused)
      ui.allowed
      (fun e => userEvent ui e >>= fun r => match r with
        | none => loop ui n
        | some ok => pure ok)

/-! ## `main` -/

/-- `getCfgInt`, `getCfgStr` and `getCfgStrArr`, by the type of the entry. -/
def getCfg (id : Code) : Greet Unit := do
  gSendInt G_GetCfg
  gSendInt id
  let sts ← gRecvInt
  if sts ≠ GE_Ok then quit
  else if id &&& C_TYPE_MASK = C_TYPE_INT then
    let _ ← gRecvInt
    pure ()
  else if id &&& C_TYPE_MASK = C_TYPE_STR then
    let _ ← gRecvStr
    pure ()
  else if id &&& C_TYPE_MASK = C_TYPE_ARGV then
    let _ ← gRecvArgv
    pure ()
  else quit

def initConfig : List Code → Greet Unit
  | [] => pure ()
  | id :: cfgs => do
    getCfg id
    initConfig cfgs

/-- `handleFailVerify`, behind a login: the messages of the start of the session. -/
def handleFailVerify : Nat → Greet Unit
  | 0 => goOn
  | n + 1 => do
    let ret ← gRecvInt
    if ret = V_MSG_ERR ∨ ret = V_MSG_INFO_AUTH ∨ ret = V_MSG_INFO then
      showMessage
      handleFailVerify n
    else if ret = V_OK ∨ ret = V_AUTH ∨ ret = V_FAIL then pure ()
    else quit

/-- One greeter. -/
def greet (ui : Ui) (n : Nat) : Greet Unit := do
  initConfig ui.cfgs
  if !ui.grabServer then
    gSendInt G_SetupDpy
    let _ ← gRecvInt
  gSendInt G_Ready
  let cmd ← gRecvInt
  if cmd = G_Greet ∨ cmd = G_GreetTimed then
    assign fun g => { g with timeable := ui.timeable && cmd = G_GreetTimed, sendInteract := true }
    start ui
    let _ ← loop ui n
    gSendInt G_Ready
    handleFailVerify n
  else quit

/-- The beginning. -/
def KG.init : KG where
  func := .Authenticate
  coreState := .CoreIdle
  sockNot := false
  running := false
  failed := false
  timeable := false
  timed := false
  authTok := false
  isClear := true
  sendInteract := false
  curUser := []
  needLoad := false
  curSel := none
  prevValid := true
  prompt := none
  gaveUp := false
  knows := false

end Kdm.Login
