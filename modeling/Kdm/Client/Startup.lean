import Kdm.Client.Credentials
import Kdm.Ini.Entry

/-!
# The client of a session

`client.c`: `startClient` opens the session and forks the process that becomes the user and starts his
programs; `clientExited` undoes what is left of it.  This is the build with PAM and `initgroups`, without
ConsoleKit, Kerberos and secure RPC.

* `Config` — what the display, the user database and PAM contribute.
* `clientMain` — the process of the user.
* `startClient`, `clientExited`, `session` — the session process, from the login to its end.

The copy of the `.dmrc` in `dmrcDir`, and the contents of the files in the home directory, are left out.
-/

namespace Kdm.Client

open Printf (Text str)

structure Config where
  /-- `getpwnam(curuser)` -/
  passwd : Option Passwd
  curtype : Text
  td_setup : Option Text
  /-- `td->autoLock && cursource == PWSRC_AUTOLOGIN` -/
  autoLock : Bool
  exportList : List Text
  getenv : Text → Option Text
  displayName : Text
  serverVT : Nat
  /-- `fifoDir`, if there is a control socket -/
  fifoDir : Option Text
  greeterAuthFile : Option Text
  authFile : Option Text
  userPath : Text
  systemPath : Text
  systemShell : Text
  /-- what `initgroups` sets for the user -/
  groups : List Nat
  /-- what is in memory that has not been written to -/
  garbage : List Nat
  /-- what the modules make of the groups -/
  pamGroups : PamCall → List Nat → List Nat
  /-- `pam_getenvlist` -/
  pamEnv : List Text
  startup : Text
  reset : Text
  sess : Text
  failsafeClient : Text
  program : Text → Option Text
  /-- `*dmrcDir` -/
  dmrcDir : Bool
  /-- the file of `setUserAuthorization`, unless it is the one that everybody knows -/
  envname : Option Text
  clientLogFile : Text
  /-- the session that the `.dmrc` has -/
  desksess : Text
  sessionsDirs : List Text
  iniLoad : Text → Option (List UInt8)
  malloc : Nat → Bool

/-! ## Environments -/

def inheritEnv (c : Config) (what : List Text) : List Op :=
  what.filterMap fun name => (c.getenv name).map (.set name)

/-- From a null pointer on. -/
def baseEnv (c : Config) (user : Text) : List Op :=
  inheritEnv c c.exportList ++ [.set (str "USER") user, .set (str "LOGNAME") user,
    .set (str "DISPLAY") c.displayName] ++
  (if 0 < c.serverVT then [.set (str "WINDOWPATH") (str (toString c.serverVT))] else []) ++
  (match c.fifoDir with
    | some dir => [.set (str "DM_CONTROL") dir]
    | none => [])

def systemEnv (c : Config) (user : Text) : List Op :=
  baseEnv c user ++
  (match c.greeterAuthFile.or c.authFile with
    | some file => [.set (str "XAUTHORITY") file]
    | none => []) ++
  [.set (str "PATH") c.systemPath, .set (str "SHELL") c.systemShell]

/-- `method=`, and whether the server is set up. -/
def xma (c : Config) : Text :=
  str "method=" ++ c.curtype ++ (if c.td_setup.isSome then str ",auto" else [])

/-- What is set for the user before PAM has its say; `managed` if there is memory for `xma`. -/
def userEnv (c : Config) (p : Passwd) (managed : Bool) : List Op :=
  baseEnv c p.pw_name ++ (if managed then [.set (str "XDM_MANAGED") (xma c)] else []) ++
  (if c.autoLock then [.set (str "DESKTOP_LOCKED") (str "true")] else []) ++
  [.set (str "PATH") (if p.pw_uid ≠ 0 then c.userPath else c.systemPath),
    .set (str "SHELL") p.pw_shell, .set (str "HOME") p.pw_dir] ++ inheritEnv c [str "TZ"]

/-- The environment of the scripts. -/
def scriptEnv (c : Config) (p : Passwd) : List Op :=
  systemEnv c p.pw_name ++ [.set (str "HOME") p.pw_dir]

/-! ## The process of the user -/

/-- `setUserAuthorization`: the files are written as the user. -/
def setUserAuthorization (c : Config) : M Unit := do
  act (.home .setUserAuthorization)
  match c.envname with
  | none => pure ()
  | some name =>
    let w ← get
    let userEnviron ← build [.set (str "XAUTHORITY") name] w.userEnviron
    let systemEnviron ← build [.set (str "XAUTHORITY") name] w.systemEnviron
    modify fun w => { w with userEnviron := userEnviron, systemEnviron := systemEnviron }

/-- The log gets another name as long as the file is there; `n` rounds. -/
def createClientLog : Nat → M Bool
  | 0 => exit
  | n + 1 => do
    if ← answer then
      act (.home .createClientLog)
      if ← answer then pure true
      else if ← answer then createClientLog n
      else pure false
    else exit

/-- The log of the configuration, or else the fallback. -/
def openLog (c : Config) (home : Bool) (n : Nat) : M Unit := do
  let ok ← (if home || c.clientLogFile.head? = some 47 then createClientLog n else pure false)
  if ok then pure ()
  else
    let _ ← createClientLog n

/-- Whether the process is in the home directory. -/
def enterHome : M Bool := do
  match getEnv (← get).userEnviron (str "HOME") with
  | none => pure false
  | some _ =>
    act (.home .chdir)
    if ← answer then pure true
    else
      let env ← build [.set (str "HOME") (str "/")] (← get).userEnviron
      modify fun w => { w with userEnviron := env }
      pure false

def DESKTOP_ENTRY : Text := str "Desktop Entry"

/-- The argument of the session, by the first description of it that there is. -/
def sessargs (c : Config) : Text :=
  match c.sessionsDirs.findSome? fun dir => c.iniLoad (dir ++ str "/" ++ c.desksess ++ str ".desktop") with
  | some data =>
    if Ini.iniEntry c.malloc (some data) DESKTOP_ENTRY (str "Hidden") none = some (str "true") then []
    else (Ini.iniEntry c.malloc (some data) DESKTOP_ENTRY (str "Exec") none).getD []
  | none =>
    if c.desksess = str "failsafe" ∨ c.desksess = str "default" ∨ c.desksess = str "custom" then
      c.desksess
    else []

/-- The session, and if it cannot be executed the failsafe client. -/
def runSession (c : Config) : M Unit := do
  match Args.parseArgs [] c.sess with
  | none => exit
  | some argv =>
    if ← answer then
      let argv := argv ++ [sessargs c]
      let env := (← get).userEnviron
      runIf (argv.head? ≠ some []) (execute .client c.program argv env)
      execute .client c.program [c.failsafeClient] env
    else exit

/-- What is done as the user. -/
def asUser (c : Config) (n : Nat) : M Unit := do
  setUserAuthorization c
  let home ← enterHome
  openLog c home n
  runIf (!c.dmrcDir) (act (.home .mergeSessionArgs))
  let env ← build [.set (str "DESKTOP_SESSION") c.desksess] (← get).userEnviron
  modify fun w => { w with userEnviron := env }
  runSession c

/-- What `pam_getenvlist` gives is added, and the process becomes the user. -/
def becomeUser (c : Config) (p : Passwd) : M Bool := do
  let env ← build (c.pamEnv.map .put) (← get).userEnviron
  modify fun w => { w with userEnviron := env }
  if ← restoreGids p then setUid p.pw_uid else pure false

/-- The process behind `gFork`, up to its end. -/
def clientMain (c : Config) (p : Passwd) (n : Nat) : M Unit := do
  act (.register true)
  let ret ← source c.program (← get).systemEnviron c.startup c.td_setup
  if ret = 0 then
    if ← becomeUser c p then asUser c n else exit
  else exit

/-! ## The session process -/

/-- A call of PAM; the modules may change the groups. -/
def pamCall (c : Config) (call : PamCall) : M Bool := do
  act (.pam call)
  modify fun w => { w with cred := { w.cred with groups := c.pamGroups call w.cred.groups } }
  answer

/-- Behind `saveGids`; `pretc` is the result of `pam_setcred`. -/
def openSession (c : Config) (p : Passwd) (n : Nat) (pretc : Bool) : M Bool := do
  if pretc then
    modify fun w => { w with removeSession := true }
    if ← pamCall c .open_session then
      let _ ← resetGids
      modify fun w => { w with removeAuth := true }
      fork (clientMain c p n)
    else
      let _ ← resetGids
      pure false
  else
    let _ ← resetGids
    pure false

def startClient (c : Config) (n : Nat) : M Bool := do
  match c.passwd with
  | none => pure false
  | some p =>
    let managed ← answer
    let userEnviron ← build (userEnv c p managed) none
    let systemEnviron ← build (scriptEnv c p) none
    modify fun w => { w with userEnviron := userEnviron, systemEnviron := systemEnviron }
    if ← setGid c.groups p.pw_gid then
      modify fun w => { w with removeCreds := true }
      let pretc ← pamCall c .setcred
      if ← saveGids c.garbage then openSession c p n pretc else pure false
    else pure false

/-- The process that removes the authorization of the user. -/
def removeMain (p : Passwd) : M Unit := do
  if ← restoreGids p then
    if ← setUid p.pw_uid then act (.home .removeUserAuthorization) else exit
  else exit

/-- What `removeAuth` stands for. -/
def endClient (c : Config) (p : Passwd) : M Unit := do
  let _ ← source c.program (← get).systemEnviron c.reset c.td_setup
  act (.register false)
  let forked ← fork (removeMain p)
  runIf forked (do let _ ← Wait4)
  modify fun w => { w with removeAuth := false }

/-- What `removeSession` stands for. -/
def endSession (c : Config) : M Unit := do
  let _ ← pamCall c .close_session

/-- What `removeCreds` stands for. -/
def endCreds (c : Config) (p : Passwd) : M Unit := do
  let _ ← restoreGids p
  runIf (← get).removeSession (endSession c)
  let _ ← pamCall c .deleteCred
  let _ ← resetGids
  modify fun w => { w with removeCreds := false }

/-- What `pamh` stands for. -/
def endPam (c : Config) : M Unit := do
  let _ ← pamCall c .pam_end
  modify fun w => { w with pamh := false }

/-- The entry of the user is there whenever it is needed. -/
def endUser (c : Config) : M Unit := do
  match c.passwd with
  | none => pure ()
  | some p =>
    runIf (← get).removeAuth (endClient c p)
    runIf (← get).removeCreds (endCreds c p)

def clientExited (c : Config) : M Unit := do
  endUser c
  runIf (← get).pamh (endPam c)

/-- `manageSession` from the start of the client on, and `sessionExit`, unless the server is dead. -/
def session (c : Config) (n : Nat) : M Unit := do
  let started ← startClient c n
  let alive ← answer
  runIf (started && alive) (clientExited c)
  clientExited c

end Kdm.Client
