import Kdm.Lib.Dialogue
import Kdm.Verify.Passwordless
import Kdm.Ini.Dmrc

/-!
# The session process talks to the greeter

The session process of a display waits for the commands of the greeter (`ctrlGreeterWait` in
`session.c`), and has a user authenticated by PAM (`verify` in `client.c`).  The PAM library is a
parameter: each of its functions is a tree of the conversations it makes.

* `conv_interact`, `conv_auto`, `PAM_conv` — what PAM asks for, passed on to the greeter.
* `doPAMAuth`, `verify` — authentication, the restrictions on root, the account and the change of an
  expired password.
* `ctrlGreeterWait` — the commands.
* `greeting`, `manageSession` — one greeter from its start to the start of the session, and to its end.

The greeter is running (`grtproc.pid > 0`).  The loops take a bound, and are cut off there.
-/

namespace Kdm.Login

open Dialogue Verify

/-- An `int` on the pipe. -/
abbrev Code := BitVec 32

/-- What goes through the pipes, one item for each call of a `gSend` function. -/
inductive Item
  | int (val : Code)
  | str (buf : Option Text)
  | arr (data : Option Text)
  | argv (argv : Option (List Text))
deriving DecidableEq

/-! ## The codes of `greet.h` -/

def G_Greet : Code := 1
def G_GreetTimed : Code := 6

def G_Ready : Code := 0
def G_Interact : Code := 4
def G_GetCfg : Code := 103
def G_SetupDpy : Code := 104
def G_ReadDmrc : Code := 105
def G_GetDmrc : Code := 106
def G_PutDmrc : Code := 108
def G_Verify : Code := 109
def G_VerifyRootOK : Code := 110
def G_AutoLogin : Code := 117

def GE_Ok : Code := 0
def GE_Error : Code := 2
def GE_NoEnt : Code := 10
def GE_BadType : Code := 11
def GE_NoUser : Code := 20
def GE_NoFile : Code := 21
def GE_Denied : Code := 22

def V_OK : Code := 0
def V_FAIL : Code := 10
def V_AUTH : Code := 11
def V_MSG_INFO : Code := 110
def V_MSG_ERR : Code := 111
def V_PUT_USER : Code := 112
def V_CHTOK : Code := 113
def V_CHTOK_AUTH : Code := 114
def V_PRE_OK : Code := 115
def V_MSG_INFO_AUTH : Code := 116
def V_GET_TEXT : Code := 200
def V_GET_BINARY : Code := 201

def V_IS_SECRET : Code := 1
def V_IS_USER : Code := 2
def V_IS_PASSWORD : Code := 4
def V_IS_OLDPASSWORD : Code := 8
def V_IS_NEWPASSWORD : Code := 16

def C_TYPE_MASK : Code := 0x0f000000
def C_TYPE_INT : Code := 0x00000000
def C_TYPE_STR : Code := 0x01000000
def C_TYPE_ARGV : Code := 0x02000000
def C_TYPE_ARR : Code := 0x03000000
def C_isLocal : Code := 0x200
def C_hasConsole : Code := 0x201
def C_isAuthorized : Code := 0x202
def C_isReserve : Code := 0x203

/-- `"Desktop"`. -/
def DESKTOP : Text := [68, 101, 115, 107, 116, 111, 112]

/-- `"Username:"`. -/
def USER_PROMPT : Text := [85, 115, 101, 114, 110, 97, 109, 101, 58]

/-- `"Root logins are not allowed"`. -/
def ROOT_DENIED : Text :=
  [82, 111, 111, 116, 32, 108, 111, 103, 105, 110, 115, 32, 97, 114, 101, 32, 110, 111, 116, 32,
    97, 108, 108, 111, 119, 101, 100]

/-! ## PAM -/

inductive PamCode
  | PAM_SUCCESS
  | PAM_USER_UNKNOWN
  | PAM_AUTH_ERR
  | PAM_MAXTRIES
  | PAM_AUTHINFO_UNAVAIL
  | PAM_NEW_AUTHTOK_REQD
  | other
deriving DecidableEq

open PamCode

inductive Style
  | PAM_TEXT_INFO
  | PAM_ERROR_MSG
  | PAM_PROMPT_ECHO_OFF
  | PAM_PROMPT_ECHO_ON
  | PAM_BINARY_PROMPT
  | other
deriving DecidableEq

/-- `struct pam_message`. -/
structure Message where
  msg_style : Style
  msg : Text

/-- What the modules behind a PAM function do: they result in a code, make a conversation (which fails
with `none`), or want the name of the user. -/
inductive Pam
  | ret (code : PamCode)
  | conv (msgs : List Message) (k : Option (List (Option Text)) → Pam)
  | user (k : Option Text → Pam)

/-- The library; the functions are numbered by the calls. -/
structure Library where
  pam_start : Nat → Text → Option Text → PamCode
  /-- the items that must be set: the terminal, and the host of a foreign display -/
  pam_set_item : Nat → PamCode
  pam_authenticate : Nat → Pam
  pam_acct_mgmt : Nat → Pam
  pam_chauthtok : Nat → Pam

/-- A handle: `PAM_USER`, and whether `pam_authenticate` was content. -/
structure Handle where
  user : Option Text
  passed : Bool

/-! ## The process -/

/-- What the session process goes by. -/
structure Core where
  PAMService : Text
  db : Database
  noPassUsers : List Text
  allowRootLogin : Bool
  autoUser : Text
  autoPass : Text
  pam : Library
  isLocal : Bool
  isReserve : Bool
  hasConsole : Bool
  isAuthorized : Bool
  /-- the ids that `findCfgEnt` knows -/
  cfgIds : List Code
  /-- an entry, as the type in its id says -/
  cfgInt : Code → Code
  cfgStr : Code → Option Text
  cfgArgv : Code → Option (List Text)
  cfgArr : Code → Option Text
  disk : Ini.Dmrc.Disk
  malloc : Nat → Bool

/-- The static variables; `abort` is the one of `pdata`, and `calls` counts the calls of PAM. -/
structure Vars where
  curuser : Option Text
  curpass : Option Text
  newpass : Option Text
  curtype : Option Text
  cursource : Source
  pamh : Option Handle
  inAuth : Bool
  abort : Bool
  calls : Nat
  dmrcuser : Option Text
  curdmrc : Option Text
  newdmrc : Option Text
  td_setup : Bool

abbrev Session (ε α : Type) := Proc Vars Item ε α

variable {ν ε : Type}

open Proc

/-- The functions of both ends; the process has the variables `ν` and the events `ε`. -/
def gSendInt (val : Code) : Proc ν Item ε Unit := send (.int val)
def gSendStr (buf : Option Text) : Proc ν Item ε Unit := send (.str buf)
def gSendArr (data : Option Text) : Proc ν Item ε Unit := send (.arr data)
def gSendArgv (argv : Option (List Text)) : Proc ν Item ε Unit := send (.argv argv)

def Item.int? : Item → Option Code
  | .int val => some val
  | _ => none

def Item.str? : Item → Option (Option Text)
  | .str buf => some buf
  | _ => none

def Item.arr? : Item → Option (Option Text)
  | .arr data => some data
  | _ => none

def Item.argv? : Item → Option (Option (List Text))
  | .argv l => some l
  | _ => none

def gRecvInt : Proc ν Item ε Code := receive Item.int? none
def gRecvStr : Proc ν Item ε (Option Text) := receive Item.str? none
def gRecvArr : Proc ν Item ε (Option Text) := receive Item.arr? none
def gRecvArgv : Proc ν Item ε (Option (List Text)) := receive Item.argv? none

/-- The end of the pipe is a result. -/
def gRecvCmd : Session ε (Option Code) := receive (fun i => i.int?.map some) (some none)

/-! ## The conversation -/

def displayStr (lv : Code) (msg : Option Text) : Session ε Unit := do
  gSendInt lv
  gSendStr msg
  let _ ← gRecvInt
  pure ()

inductive What
  | GCONV_NORMAL
  | GCONV_HIDDEN
  | GCONV_USER
  | GCONV_PASS
  | GCONV_PASS_ND
  | GCONV_BINARY
deriving DecidableEq

open What

/-- `echo` of `grqs`. -/
def What.echo : What → Bool
  | GCONV_NORMAL => true
  | GCONV_USER => true
  | _ => false

/-- `ndelay` of `grqs`. -/
def What.ndelay : What → Bool
  | GCONV_PASS_ND => true
  | _ => false

def flag (b : Bool) : Code := if b then 1 else 0

def tagged (tag bit : Code) : Bool := tag &&& bit != 0

/-- Where a reply is kept, and what it is then. -/
def keepReply (what : What) (ret : Text) (tag : Code) (v : Vars) : Option Text × Vars :=
  match what with
  | GCONV_USER => (some ret, { v with curuser := some ret })
  | GCONV_PASS => (some ret, { v with curpass := some ret })
  | GCONV_PASS_ND => (some ret, { v with curpass := some ret })
  | _ =>
    if tagged tag V_IS_USER then (some ret, { v with curuser := some ret })
    else if tagged tag V_IS_PASSWORD then (some ret, { v with curpass := some ret })
    else if tagged tag V_IS_NEWPASSWORD then (some ret, { v with newpass := some ret })
    else if tagged tag V_IS_OLDPASSWORD then (v.curpass, v)
    else (some ret, v)

def conv_interact (what : What) (prompt : Option Text) : Session ε (Option Text) :=
  if what = GCONV_BINARY then do
    gSendInt V_GET_BINARY
    gSendArr prompt
    gSendInt (flag false)
    gRecvArr
  else do
    gSendInt V_GET_TEXT
    gSendStr prompt
    gSendInt (flag what.echo)
    gSendInt (flag what.ndelay)
    match ← gRecvStr with
    | none => pure none
    | some ret =>
      let tag ← gRecvInt
      let v ← vars
      assign fun v => (keepReply what ret tag v).2
      pure (keepReply what ret tag v).1

def conv_auto (what : What) : Session ε (Option Text) := do
  let v ← vars
  match what with
  | GCONV_USER => pure v.curuser
  | GCONV_PASS => pure v.curpass
  | GCONV_PASS_ND => pure v.curpass
  | _ => pure none

/-- `GConvFunc`. -/
inductive GConv
  | interact
  | auto
deriving DecidableEq

def GConv.call : GConv → What → Option Text → Session ε (Option Text)
  | .interact, what, prompt => conv_interact what prompt
  | .auto, what, _ => conv_auto what

/-- `curpass`, asked for if it is missing. -/
def usePass (gconv : GConv) : Session ε (Option Text) := do
  let v ← vars
  if v.curpass = none then
    let _ ← gconv.call GCONV_PASS none
    let v ← vars
    pure v.curpass
  else pure v.curpass

/-- What a prompt brings, `none` for a message style that is not known. -/
def PAM_prompt (usecur : Bool) (gconv : GConv) (m : Message) :
    Session ε (Option (Option Text)) :=
  if usecur then
    match m.msg_style with
    | .PAM_PROMPT_ECHO_OFF => some <$> usePass gconv
    | _ => pure none
  else
    match m.msg_style with
    | .PAM_PROMPT_ECHO_ON => some <$> gconv.call GCONV_NORMAL (some m.msg)
    | .PAM_PROMPT_ECHO_OFF => some <$> gconv.call GCONV_HIDDEN (some m.msg)
    | .PAM_BINARY_PROMPT => some <$> gconv.call GCONV_BINARY (some m.msg)
    | _ => pure none

/-- The reply to a prompt, `none` for a failure; only a null pointer sets `abort`. -/
def PAM_reply (usecur : Bool) (gconv : GConv) (m : Message) : Session ε (Option Text) := do
  match ← PAM_prompt usecur gconv m with
  | none => pure none
  | some none =>
    assign fun v => { v with abort := true }
    pure none
  | some (some r) => pure (some r)

/-- The loop over the messages; `none` is `PAM_CONV_ERR`. -/
def PAM_conv (usecur : Bool) (gconv : GConv) : List Message → Session ε (Option (List (Option Text)))
  | [] => pure (some [])
  | m :: msgs => do
    match m.msg_style with
    | .PAM_TEXT_INFO =>
      let v ← vars
      displayStr (if v.inAuth then V_MSG_INFO_AUTH else V_MSG_INFO) (some m.msg)
      let reply ← PAM_conv usecur gconv msgs
      pure (reply.map (none :: ·))
    | .PAM_ERROR_MSG =>
      displayStr V_MSG_ERR (some m.msg)
      let reply ← PAM_conv usecur gconv msgs
      pure (reply.map (none :: ·))
    | _ =>
      match ← PAM_reply usecur gconv m with
      | none => pure none
      | some r =>
        let reply ← PAM_conv usecur gconv msgs
        pure (reply.map (some r :: ·))

/-- `pam_get_user` has a conversation only if the handle has no name. -/
def pam_get_user (usecur : Bool) (gconv : GConv) : Session ε (Option Text) := do
  let v ← vars
  match v.pamh.bind Handle.user with
  | some u => pure (some u)
  | none =>
    match ← PAM_conv usecur gconv [⟨.PAM_PROMPT_ECHO_ON, USER_PROMPT⟩] with
    | some [some u] =>
      assign fun v => { v with pamh := v.pamh.map fun h => { h with user := some u } }
      pure (some u)
    | _ => pure none

/-- A PAM function runs. -/
def call (usecur : Bool) (gconv : GConv) : Pam → Session ε PamCode
  | .ret code => pure code
  | .conv msgs k => PAM_conv usecur gconv msgs >>= fun r => call usecur gconv (k r)
  | .user k => pam_get_user usecur gconv >>= fun u => call usecur gconv (k u)

/-! ## `verify` -/

def wipePass : Session ε Unit := assign fun v => { v with curpass := none }

def pam_end : Session ε Unit := assign fun v => { v with pamh := none }

def V_RET : Session ε Bool := do
  wipePass
  pure false

def V_RET_AUTH : Session ε Bool := do
  gSendInt V_AUTH
  V_RET

def V_RET_FAIL (m : Option Text) : Session ε Bool := do
  displayStr V_MSG_ERR m
  gSendInt V_FAIL
  V_RET

/-- `pam_authenticate`, and what the handle keeps of it. -/
def authenticate (c : Core) (usecur : Bool) (gconv : GConv) : Session ε PamCode := do
  assign fun v => { v with inAuth := true }
  let v ← vars
  let pretc ← call usecur gconv (c.pam.pam_authenticate v.calls)
  assign fun v => { v with inAuth := false,
                           pamh := v.pamh.map fun h => { h with passed := pretc = PAM_SUCCESS } }
  pure pretc

/-- The name that PAM has, if there is none yet. -/
def putUser : Session ε Unit := do
  let v ← vars
  if v.curuser = none then
    let user := v.pamh.bind Handle.user
    assign fun v => { v with curuser := user }
    gSendInt V_PUT_USER
    gSendStr user

def doPAMAuth (c : Core) (psrv : Text) (usecur : Bool) (gconv : GConv) : Session ε Bool := do
  assign fun v => { v with abort := false, calls := v.calls + 1 }
  let v ← vars
  if c.pam.pam_start v.calls psrv v.curuser ≠ PAM_SUCCESS then
    pam_end
    V_RET_FAIL none
  else
    assign fun v => { v with pamh := some ⟨v.curuser, false⟩ }
    if c.pam.pam_set_item v.calls ≠ PAM_SUCCESS then
      pam_end
      V_RET_FAIL none
    else
      let pretc ← authenticate c usecur gconv
      let v ← vars
      if v.abort then
        pam_end
        V_RET
      else
        putUser
        match pretc with
        | PAM_SUCCESS => pure true
        | PAM_USER_UNKNOWN | PAM_AUTH_ERR | PAM_MAXTRIES | PAM_AUTHINFO_UNAVAIL =>
          pam_end
          V_RET_AUTH
        | _ =>
          pam_end
          V_RET_FAIL none

/-- `while (!doPAMAuth(PAMService, &pdata))`: authenticated, or aborted. -/
def reauth (c : Core) : Nat → Session ε Bool
  | 0 => goOn
  | n + 1 => do
    if ← doPAMAuth c c.PAMService false .interact then pure true
    else
      let v ← vars
      if v.abort then pure false else reauth c n

/-- The loop about `pam_chauthtok`. -/
def chauthtok (c : Core) : Nat → Session ε Bool
  | 0 => goOn
  | n + 1 => do
    assign fun v => { v with inAuth := true, calls := v.calls + 1 }
    let v ← vars
    let pretc ← call false .interact (c.pam.pam_chauthtok v.calls)
    assign fun v => { v with inAuth := false }
    let v ← vars
    if v.abort then
      pam_end
      V_RET
    else if pretc = PAM_SUCCESS then
      assign fun v => { v with curpass := v.newpass, newpass := none }
      pure true
    else
      gSendInt V_FAIL
      chauthtok c n

/-- The branch for `PAM_NEW_AUTHTOK_REQD`. -/
def renew (c : Core) (gconv : GConv) (pnopass : Bool) (n : Nat) : Session ε Bool := do
  if gconv ≠ .interact ∨ pnopass = true then
    pam_end
    gSendInt V_CHTOK_AUTH
    if ← reauth c n then
      gSendInt V_PRE_OK
      chauthtok c n
    else pure false
  else
    gSendInt V_CHTOK
    chauthtok c n

def account (c : Core) (usecur : Bool) (gconv : GConv) (pnopass : Bool) (n : Nat) :
    Session ε Bool := do
  assign fun v => { v with calls := v.calls + 1 }
  let v ← vars
  match ← call usecur gconv (c.pam.pam_acct_mgmt v.calls) with
  | PAM_NEW_AUTHTOK_REQD => renew c gconv pnopass n
  | PAM_SUCCESS => pure true
  | _ =>
    pam_end
    V_RET_AUTH

/-- `restrict`: `getpwnam` of a null pointer is the end of the process. -/
def restrict (c : Core) (usecur : Bool) (gconv : GConv) (pnopass rootok : Bool) (n : Nat) :
    Session ε Bool := do
  let v ← vars
  match v.curuser with
  | none => quit
  | some u =>
    match c.db.getpwnam u with
    | none => V_RET_FAIL none
    | some p =>
      if p.pw_uid = 0 then
        if !rootok && !c.allowRootLogin then V_RET_FAIL (some ROOT_DENIED)
        else
          wipePass
          pure true
      else account c usecur gconv pnopass n

def authorize (c : Core) (psrv : Text) (usecur : Bool) (gconv : GConv) (pnopass rootok : Bool)
    (n : Nat) : Session ε Bool := do
  if ← doPAMAuth c psrv usecur gconv then restrict c usecur gconv pnopass rootok n
  else pure false

/-- `strcmp` of a null pointer is the end of the process. -/
def verify (c : Core) (gconv : GConv) (rootok : Bool) (n : Nat) : Session ε Bool := do
  let v ← vars
  match v.curtype with
  | none => quit
  | some curtype =>
    if curtype = CLASSIC then
      match ← gconv.call GCONV_USER none with
      | none => pure false
      | some _ =>
        let v ← vars
        if isNoPassAllowed c.db c.noPassUsers v.cursource (v.curuser.getD []) then
          let _ ← gconv.call GCONV_PASS_ND none
          let v ← vars
          if v.curpass = none ∨ v.curpass = some [] then
            authorize c (npService c.PAMService) true gconv true rootok n
          else authorize c c.PAMService true gconv false rootok n
        else authorize c c.PAMService true gconv false rootok n
    else authorize c (compose c.PAMService curtype) false gconv false rootok n

/-! ## Commands -/

def statusCode : Ini.Dmrc.Status → Code
  | .GE_Ok => GE_Ok
  | .GE_Error => GE_Error
  | .GE_NoUser => GE_NoUser
  | .GE_NoFile => GE_NoFile
  | .GE_Denied => GE_Denied

/-- `readDmrc`, for a name that may be a null pointer. -/
def readDmrc (c : Core) (name : Option Text) : Ini.Dmrc.Status × Option Text :=
  match name with
  | none => (.GE_NoUser, none)
  | some name => Ini.Dmrc.readDmrc c.disk name

def gGetCfg (c : Core) : Session ε Unit := do
  let type ← gRecvInt
  if type = C_isLocal then
    gSendInt GE_Ok
    gSendInt (flag c.isLocal)
  else if type = C_isReserve then
    gSendInt GE_Ok
    gSendInt (flag c.isReserve)
  else if type = C_hasConsole then
    gSendInt GE_Ok
    gSendInt (flag c.hasConsole)
  else if type = C_isAuthorized then
    gSendInt GE_Ok
    gSendInt (flag c.isAuthorized)
  else if !c.cfgIds.contains type then gSendInt GE_NoEnt
  else if type &&& C_TYPE_MASK = C_TYPE_INT then
    gSendInt GE_Ok
    gSendInt (c.cfgInt type)
  else if type &&& C_TYPE_MASK = C_TYPE_STR then
    gSendInt GE_Ok
    gSendStr (c.cfgStr type)
  else if type &&& C_TYPE_MASK = C_TYPE_ARGV then
    gSendInt GE_Ok
    gSendArgv (c.cfgArgv type)
  else if type &&& C_TYPE_MASK = C_TYPE_ARR then
    gSendInt GE_Ok
    gSendArr (c.cfgArr type)
  else gSendInt GE_BadType

def gReadDmrc (c : Core) : Session ε Unit := do
  let name ← gRecvStr
  let v ← vars
  if v.dmrcuser ≠ name then
    assign fun v => { v with dmrcuser := name, curdmrc := (readDmrc c name).2 }
    gSendInt (statusCode (readDmrc c name).1)
  else gSendInt GE_Ok

/-- `iniEntry` of a null key is the end of the process. -/
def gGetDmrc (c : Core) : Session ε Unit := do
  match ← gRecvStr with
  | none => quit
  | some name =>
    let v ← vars
    gSendStr (Ini.iniEntry c.malloc v.curdmrc DESKTOP name none)

def gPutDmrc (c : Core) : Session ε Unit := do
  let name ← gRecvStr
  let pass ← gRecvStr
  match name with
  | none => quit
  | some name =>
    assign fun v => { v with newdmrc := Ini.iniEntry c.malloc v.newdmrc DESKTOP name pass }

/-- `V_OK` for a user that is let in. -/
def answer (ok : Session ε Bool) : Session ε Unit := do
  if ← ok then gSendInt V_OK

def gVerify (c : Core) (rootok : Bool) (n : Nat) : Session ε Unit := do
  assign fun v => { v with curuser := none, curpass := none }
  let curtype ← gRecvStr
  assign fun v => { v with curtype := curtype, cursource := .PWSRC_MANUAL }
  answer (verify c .interact rootok n)

def doAutoLogon (c : Core) : Session ε Unit := assign fun v =>
  { v with curuser := some c.autoUser, curpass := some c.autoPass, curtype := some CLASSIC,
           cursource := .PWSRC_AUTOLOGIN }

def gAutoLogin (c : Core) (n : Nat) : Session ε Unit := do
  doAutoLogon c
  answer (verify c .auto false n)

def gSetupDpy : Session ε Unit := do
  assign fun v => { v with td_setup := false }
  gSendInt 0

/-- What `ctrlGreeterWait` results in: `0`, `-2`, or a command it does not know. -/
inductive Cmd
  | ready
  | lost
  | unknown (cmd : Code)
deriving DecidableEq

/-- The commands that are carried out here. -/
def serve (c : Core) (n : Nat) (cmd : Code) : Option (Session ε Unit) :=
  if cmd = G_Interact then some (pure ())
  else if cmd = G_GetCfg then some (gGetCfg c)
  else if cmd = G_ReadDmrc then some (gReadDmrc c)
  else if cmd = G_GetDmrc then some (gGetDmrc c)
  else if cmd = G_PutDmrc then some (gPutDmrc c)
  else if cmd = G_VerifyRootOK then some (gVerify c true n)
  else if cmd = G_Verify then some (gVerify c false n)
  else if cmd = G_AutoLogin then some (gAutoLogin c n)
  else if cmd = G_SetupDpy then some gSetupDpy
  else none

/-- `ctrlGreeterWait(True, ..)`. -/
def ctrlGreeterWait (c : Core) : Nat → Session ε Cmd
  | 0 => goOn
  | n + 1 => do
    match ← gRecvCmd with
    | none => pure .lost
    | some cmd =>
      if cmd = G_Ready then pure .ready
      else
        match serve c n cmd with
        | some act => act >>= fun _ => ctrlGreeterWait c n
        | none => pure (.unknown cmd)

/-- `openGreeter`, and `manageSession` up to the point where the client is started. -/
def greeting (c : Core) (timed : Bool) (n : Nat) : Session ε Cmd := do
  match ← ctrlGreeterWait c n with
  | .ready =>
    gSendInt (if timed then G_GreetTimed else G_Greet)
    ctrlGreeterWait c n
  | cmd => pure cmd

/-- What `startClient` has the greeter display, in the end `finishGreet`. -/
def startClient : List (Option Text) → Session ε Unit
  | [] => gSendInt V_OK
  | msg :: msgs => do
    displayStr V_MSG_ERR msg
    startClient msgs

/-- One greeter, up to its end; `msgs` are the messages of `startClient`. -/
def manageSession (c : Core) (timed : Bool) (msgs : List (Option Text)) (n : Nat) :
    Session ε Cmd := do
  match ← greeting c timed n with
  | .ready =>
    startClient msgs
    pure .ready
  | cmd => pure cmd

end Kdm.Login
