import Kdm.Backend.Talk

/-!
# Control commands (`ctrl.c`)

`processCtrl` takes one line from a connection to the global control socket (`none`) or to the
socket of a display and returns what it answers together with the new state.  The `shutdown`
command is parsed first (`parseShutdown`, which changes nothing) and then checked against the
policies and applied (`displayShutdown`, `globalShutdown`).
-/

namespace Kdm

/-- What a control command is answered with. -/
inductive Reply where
  | ok
  | caps (words : List String)
  | sessions (l : List Session)
  | status (globalRec localRec : Option SdRec)
  | bootOptions (opts : List String) (dflt curr : Int)
  /-- `fLog`: a status word and a message -/
  | fLog (sts msg : String)
  deriving DecidableEq, Repr

def missing : Reply := .fLog "bad" "missing argument(s)"
def excess : Reply := .fLog "bad" "excess argument(s)"
def unknownCommand : Reply := .fLog "nosys" "unknown command"
def outOfMemory : Reply := .fLog "nomem" "out of memory"

/-- `%"s`. -/
def quoted (w : String) : String := "\"" ++ w ++ "\""

/-! ## Arguments of `shutdown` -/

/-- A record as the parser leaves it; `uid` is filled in later. -/
def request (how force : Fin 4) (start timeout : Int) (osname : Option String) : SdRec :=
  ⟨how, force, -1, start, timeout, osname, start⟩

/-- The whole word is a number. -/
def isNumber (w : List Char) : Bool := w ≠ [] && (strtol w).2 = []

/-- A time argument: relative with a `+`, else a wall clock time unless 0. -/
def timeArg (w : List Char) (base : Int) (s : State) : Int :=
  let v := toInt (strtol w).1
  if w.head? = some '+' then toInt (v + base)
  else if v ≠ 0 then toInt (toInt (v - s.env.wallClock) + s.now)
  else v

/-- The timeout and its action, after an explicit start time. -/
def parseTimeout (onDisplay : Bool) (how : Fin 4) (start : Int) (osname : Option String)
    (args : List String) (s : State) : Except Reply SdRec :=
  match args with
  | [] => .error missing
  | w :: rest =>
    if ¬ isNumber w.toList then .error (.fLog "bad" ("invalid timeout " ++ quoted w))
    else if toInt (strtol w.toList).1 < 0 then
      if rest = [] then .ok (request how SHUT_CANCEL start TO_INF osname) else .error excess
    else
      let timeout := timeArg w.toList (if start ≠ 0 then start else s.now) s
      match rest with
      | [] => .error missing
      | action :: rest =>
        let finish (force : Fin 4) : Except Reply SdRec :=
          if rest = [] then .ok (request how force start timeout osname) else .error excess
        if action = "force" then finish SHUT_FORCE
        else if onDisplay ∧ action = "forcemy" then finish SHUT_FORCEMY
        else if action = "cancel" then finish SHUT_CANCEL
        else .error (.fLog "bad" ("invalid timeout action " ++ quoted action))

/-- A start time with its timeout, or one of the modes. -/
def parseMode (onDisplay : Bool) (how : Fin 4) (osname : Option String)
    (args : List String) (s : State) : Except Reply SdRec :=
  match args with
  | [] => .error missing
  | w :: rest =>
    if isNumber w.toList then
      parseTimeout onDisplay how (timeArg w.toList s.now s) osname rest s
    else
      let start := toInt (strtol w.toList).1
      let finish (force : Fin 4) (timeout : Int) : Except Reply SdRec :=
        if rest = [] then .ok (request how force start timeout osname) else .error excess
      if onDisplay ∧ w = "ask" then finish SHUT_ASK 0
      else if w = "forcenow" then finish SHUT_FORCE 0
      else if w = "schedule" then finish SHUT_CANCEL TO_INF
      else if w = "trynow" then finish SHUT_CANCEL 0
      else .error (.fLog "bad" ("invalid mode " ++ quoted w))

/-- An optional `=` boot option before the times. -/
def parseBootOption (onDisplay : Bool) (how : Fin 4) (args : List String) (s : State) :
    Except Reply SdRec :=
  match args with
  | [] => .error missing
  | w :: rest =>
    if w.toList.head? = some '=' then
      match setBootOption (some (String.ofList (w.toList.drop 1))) s with
      | (.noMan, _) => .error (.fLog "notsup" "boot options unavailable")
      | (.noEnt, _) => .error (.fLog "noent" "no such boot option")
      | (.io, _) => .error (.fLog "io" "io error")
      | (.ok, osname) => parseMode onDisplay how osname rest s
    else parseMode onDisplay how none args s

/-- The scope of `shutdown cancel`; the global one is marked by a start time. -/
def parseCancel (onDisplay : Bool) (args : List String) : Except Reply SdRec :=
  match args with
  | [] => .ok (request 0 SHUT_CANCEL 0 0 none)
  | scope :: rest =>
    if ¬ onDisplay then .error excess
    else if scope = "global" then
      if rest = [] then .ok (request 0 SHUT_CANCEL TO_INF 0 none) else .error excess
    else if scope = "local" then
      if rest = [] then .ok (request 0 SHUT_CANCEL 0 0 none) else .error excess
    else .error (.fLog "bad" ("invalid cancel scope " ++ quoted scope))

/-- `shutdown status`. -/
def shutdownStatus (d : Option Display) (s : State) : Reply :=
  .status (if s.sdRec.how ≠ 0 then some s.sdRec else none)
    (d.bind fun d => if d.sdRec.how ≠ 0 then some d.sdRec else none)

/-- The words after `shutdown`. -/
def parseShutdown (d : Option Display) (args : List String) (s : State) : Except Reply SdRec :=
  match args with
  | [] => .error missing
  | w :: rest =>
    if w = "status" then .error (if rest = [] then shutdownStatus d s else excess)
    else if w = "cancel" then parseCancel d.isSome rest
    else if w = "reboot" then parseBootOption d.isSome SHUT_REBOOT rest s
    else if w = "halt" then parseBootOption d.isSome SHUT_HALT rest s
    else .error (.fLog "bad" ("invalid type " ++ quoted w))

/-! ## Policies of `shutdown` -/

/-- The uid a request through a display counts for: `0` when nobody is logged in. -/
def Display.requestUid (d : Display) : Int := if 0 ≤ d.userSess then d.userSess else 0

/-- `allowShutdown` refuses the request. -/
def Display.deniesShutdown (d : Display) (force : Fin 4) : Prop :=
  d.conf.allowShutdown = .none ∨
    (d.conf.allowShutdown = .root ∧ d.requestUid ≠ 0 ∧ force ≠ SHUT_ASK)

/-- `allowNuke` refuses to let `uid` override a forced shutdown of `owner`. -/
def Display.deniesOverride (d : Display) (owner uid : Int) : Prop :=
  (d.conf.allowNuke = .none ∧ owner ≠ uid) ∨ (d.conf.allowNuke = .root ∧ uid ≠ 0)

/-- `allowNuke` refuses forced shutdowns. -/
def Display.deniesNuke (d : Display) : Prop :=
  d.conf.allowNuke = .none ∨ (d.conf.allowNuke = .root ∧ d.requestUid ≠ 0)

instance (d : Display) (force : Fin 4) : Decidable (d.deniesShutdown force) := by
  unfold Display.deniesShutdown; infer_instance

instance (d : Display) (owner uid : Int) : Decidable (d.deniesOverride owner uid) := by
  unfold Display.deniesOverride; infer_instance

instance (d : Display) : Decidable d.deniesNuke := by
  unfold Display.deniesNuke; infer_instance

def perm (msg : String) : Reply := .fLog "perm" msg

/-- A parsed request through the socket of display `d`: without a start time it is the
display's own request, made global at logout. -/
def displayShutdown (d : Display) (sdr : SdRec) (s : State) : Reply × State :=
  let sdr := { sdr with uid := d.requestUid }
  let setLocal := s.modify d.id fun d => { d with sdRec := sdr }
  if d.deniesShutdown sdr.force then (perm "shutdown forbidden", s)
  else if sdr.how = 0 ∧ sdr.start = 0 then (.ok, setLocal)
  else if s.sdRec.how ≠ 0 ∧ s.sdRec.force = SHUT_FORCE ∧ d.deniesOverride s.sdRec.uid sdr.uid then
    (perm "overriding forced shutdown forbidden", s)
  else if sdr.force = SHUT_FORCE ∧ d.deniesNuke then (perm "forced shutdown forbidden", s)
  else if sdr.start = 0 then (.ok, setLocal)
  else if sdr.how = 0 then (.ok, cancelShutdown s)
  else (.ok, { s with sdRec := sdr })

/-- A parsed request through the global socket. -/
def globalShutdown (sdr : SdRec) (s : State) : Reply × State :=
  if ¬ s.conf.fifoAllowShutdown then (perm "shutdown forbidden", s)
  else if s.sdRec.how ≠ 0 ∧ s.sdRec.force = SHUT_FORCE ∧ s.sdRec.uid ≠ -1 ∧
      ¬ s.conf.fifoAllowNuke then
    (perm "overriding forced shutdown forbidden", s)
  else if sdr.how = 0 then (.ok, cancelShutdown s)
  else if sdr.force ≠ SHUT_CANCEL ∧ ¬ s.conf.fifoAllowNuke then
    (perm "forced shutdown forbidden", s)
  else if sdr.force = SHUT_CANCEL ∧ sdr.start = 0 ∧ sdr.timeout = 0 ∧ anyUserLogins (-1) s then
    (.fLog "busy" "user sessions running", s)
  else (.ok, { s with sdRec := { sdr with uid := -1 } })

/-- The `shutdown` command. -/
def shutdownCommand (d : Option Display) (args : List String) (s : State) : Reply × State :=
  match parseShutdown d args s with
  | .error r => (r, s)
  | .ok sdr =>
    match d with
    | some d => displayShutdown d sdr s
    | none => globalShutdown sdr s

/-! ## Other commands -/

/-- The answer to `caps`. -/
def capsReply (d : Option Display) (s : State) : Reply :=
  let boot := if s.env.bootOptions.isSome then ["bootoptions"] else []
  let reserves := if anyReserveDisplays s then ["reserve " ++ toString (idleReserveDisplays s)] else []
  match d with
  | some d =>
    let sd :=
      if d.conf.allowShutdown = .none then []
      else
        [if d.conf.allowShutdown = .root ∧ d.userSess ≠ 0 then "shutdown root" else "shutdown",
          "shutdown ask"] ++
        if d.conf.allowNuke = .none then []
        else [if d.conf.allowNuke = .root ∧ d.userSess ≠ 0 then "nuke root" else "nuke"]
    .caps (["kdm", "list"] ++ boot ++ (if d.isLocal then ["local", "activate"] else []) ++ sd ++
      (if d.isLocal then reserves else []) ++ ["lock", "suicide"])
  | none =>
    let sd :=
      if s.conf.fifoAllowShutdown then
        ["shutdown"] ++ if s.conf.fifoAllowNuke then ["nuke"] else []
      else []
    .caps (["kdm", "list"] ++ boot ++ sd ++ reserves ++ ["activate", "resume", "manage", "login"])

/-- The `list` command. -/
def listCommand (args : List String) (s : State) : Reply :=
  match args with
  | [] => .sessions (listSessions ⟨true, false, true⟩ s)
  | scope :: rest =>
    if scope = "all" then
      if rest = [] then .sessions (listSessions ⟨true, true, true⟩ s) else excess
    else if scope = "alllocal" then
      if rest = [] then .sessions (listSessions ⟨false, true, true⟩ s) else excess
    else .fLog "bad" ("invalid list scope " ++ quoted scope)

/-- The `reserve` command. -/
def reserveCommand (d : Option Display) (args : List String) (s : State) : Reply × State :=
  if 2 ≤ args.length then (excess, s)
  else if d.any fun d => !d.isLocal then (perm "display is not local", s)
  else
    match startReserveDisplay s with
    | (true, s) => (.ok, s)
    | (false, s) => (.fLog "noent" "no reserve display available", s)

/-- The terminal an `activate` argument names. -/
def activateTarget (w : String) (s : State) : Except Reply Int :=
  if w.toList.take 2 = ['v', 't'] ∧ 0 < atoi (w.toList.drop 2) then .ok (atoi (w.toList.drop 2))
  else
    match findDisplayByName s w with
    | none => .error (.fLog "noent" "display not found")
    | some di =>
      if ¬ di.isLocal then .error (.fLog "inval" "target display is not local")
      else if di.serverVT = 0 then .error (.fLog "noent" "target display has no VT assigned")
      else .ok di.serverVT

/-- The `activate` command. -/
def activateCommand (d : Option Display) (args : List String) (s : State) : Reply × State :=
  match args with
  | [] => (missing, s)
  | w :: rest =>
    if rest ≠ [] then (excess, s)
    else if d.any fun d => !d.isLocal then (perm "display is not local", s)
    else
      match activateTarget w s with
      | .error r => (r, s)
      | .ok _ =>
        let (x, s) := s.answer
        if x = 0 then (.fLog "inval" "VT switch failed", s) else (.ok, s)

/-- The `listbootoptions` command. -/
def listBootOptionsCommand (args : List String) (s : State) : Reply :=
  if args ≠ [] then excess
  else
    match s.env.bootOptions with
    | some (opts, dflt, curr) => .bootOptions opts dflt curr
    | none =>
      if s.env.bootOption = .io then .fLog "io" "io error"
      else .fLog "notsup" "boot options unavailable"

/-- The commands of a display's socket only. -/
def displayCommand (d : Display) (cmd : String) (args : List String) (s : State) : Reply × State :=
  if cmd = "lock" then
    if args ≠ [] then (excess, s) else (.ok, s.modifyHist d.name fun he => { he with lock := true })
  else if cmd = "unlock" then
    if args ≠ [] then (excess, s) else (.ok, s.modifyHist d.name fun he => { he with lock := false })
  else if cmd = "suicide" then
    if args ≠ [] then (excess, s)
    else if d.status = .running ∧ d.pid ≠ -1 then (.ok, s.setStatus d.id .raiser)
    else (.ok, s)
  else (unknownCommand, s)

/-- `unQuote`. -/
def unQuote : List Char → List Char
  | [] => []
  | '\\' :: 'n' :: cs => '\n' :: unQuote cs
  | '\\' :: 't' :: cs => '\t' :: unQuote cs
  | '\\' :: '\\' :: cs => '\\' :: unQuote cs
  | c :: cs => c :: unQuote cs

/-- The effect of `login` on a display that has its next login set. -/
def loginNow (di : Display) (nuke : Bool) (s : State) : State :=
  match di.status with
  | .running =>
    if di.pid ≠ -1 ∧ (di.userSess < 0 ∨ nuke) then s.setStatus di.id .raiser else s
  | .reserve => s.setStatus di.id .notRunning
  | _ => s

/-- The `login` command. -/
def loginCommand (args : List String) (s : State) : Reply × State :=
  match args with
  | name :: how :: user :: pass :: rest =>
    match findDisplayByName s name with
    | none => (.fLog "noent" ("display " ++ name ++ " not found"), s)
    | some di =>
      let nuke := decide (how = "now")
      match rest with
      | [] => (.ok, loginNow di nuke (setNLogin di.name (some user) (some pass) none 2 s))
      | sargs :: more =>
        let (ok, s) := s.malloc
        if ¬ ok then (outOfMemory, s)
        else if more ≠ [] then (excess, s)
        else
          let nargs := String.ofList (unQuote sargs.toList)
          (.ok, loginNow di nuke (setNLogin di.name (some user) (some pass) (some nargs) 2 s))
  | _ => (missing, s)

/-- `setDynamicDisplayAuthorization`, as the kernel and the authorization code answer. -/
inductive SetAuth where
  | oom
  | bad
  | ok

def setAuth (x : Int) : SetAuth := if x = 0 then .oom else if x = 1 then .bad else .ok

/-- The part of `manage` after `newDisplay`: class and authorization of the new display. -/
def manageNew (i : Id) (rest : List String) (s : State) : Reply × State :=
  match rest with
  | [] => (.ok, s)
  | cls :: auth =>
    let (ok, s) := if cls = "" then (true, s) else s.malloc
    if ¬ ok then (outOfMemory, removeDisplay i s)
    else
      match auth with
      | [] => (.ok, s)
      | [_] => (missing, s)
      | [_, _] =>
        let (x, s) := s.answer
        match setAuth x with
        | .oom => (outOfMemory, removeDisplay i s)
        | .bad => (.fLog "bad" "invalid authorization data", removeDisplay i s)
        | .ok => (.ok, s)
      | _ => (excess, removeDisplay i s)

/-- The `manage` command. -/
def manageCommand (args : List String) (s : State) : Reply × State :=
  match args with
  | [] => (missing, s)
  | name :: rest =>
    if name.toList.head? = some ':' then
      (.fLog "bad" "display needs host (try localhost?)", s)
    else if (findDisplayByName s name).isSome then
      (.fLog "exists" "display is already being managed", s)
    else
      match newDisplay name s with
      | (none, s) => (outOfMemory, s)
      | (some i, s) =>
        manageNew i rest
          (s.modify i fun d => { d with displayType := ⟨.dForeign, .dPermanent, .dFromCommand⟩ })

/-- The `unmanage` command. -/
def unmanageCommand (args : List String) (s : State) : Reply × State :=
  match args with
  | [] => (missing, s)
  | [name] =>
    match findDisplayByName s name with
    | none => (.fLog "noent" ("display " ++ name ++ " not found"), s)
    | some di =>
      if di.displayType.origin ≠ .dFromCommand then (perm "not an on-demand display", s)
      else (.ok, stopDisplay di.id s)
  | _ => (excess, s)

/-- The commands of the global socket only. -/
def globalCommand (cmd : String) (args : List String) (s : State) : Reply × State :=
  if cmd = "login" then loginCommand args s
  else if cmd = "resume" then
    if args ≠ [] then (excess, s) else (.ok, wakeDisplays s)
  else if cmd = "manage" then manageCommand args s
  else if cmd = "unmanage" then unmanageCommand args s
  else (unknownCommand, s)

/-- `processCtrl` on the words of the line; `none` for the global socket. -/
def processWords (d : Option Display) (words : List String) (s : State) : Reply × State :=
  match words with
  | [] => (.ok, s)
  | cmd :: args =>
    if cmd = "caps" then (if args = [] then capsReply d s else excess, s)
    else if cmd = "list" then (listCommand args s, s)
    else if cmd = "reserve" then reserveCommand d args s
    else if cmd = "activate" then activateCommand d args s
    else if cmd = "shutdown" then shutdownCommand d args s
    else if cmd = "listbootoptions" then (listBootOptionsCommand args s, s)
    else
      match d with
      | some d => displayCommand d cmd args s
      | none => globalCommand cmd args s

/-- `processCtrl`. -/
def processCtrl (d : Option Display) (line : String) (s : State) : Reply × State :=
  processWords d (commandWords line) s

end Kdm
