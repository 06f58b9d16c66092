import Kdm.Backend.Session

/-!
# Configuration, listening sockets and shutdown (`resource.c`, `socket.c`, `dm.c`)

A rescan re-reads the global configuration, brings the display list in line with the
configured servers and re-creates the listening and control sockets.  The configuration
reader itself is outside: its answers are part of `Env`.
-/

namespace Kdm

/-! ## XDMCP listening sockets -/

/-- `updateListener` for one address. -/
def updateListenerAddr (addr : String) (s : State) : Bool × State :=
  if s.currentRequestPort = s.conf.requestPort ∧ s.listensocks.any (fun l => l.addr == addr) then
    let socks := Keyed.update SockList.addr s.listensocks addr fun l => { l with ref := true }
    (true, { s with listensocks := socks })
  else if s.conf.requestPort = 0 then (false, s)
  else
    let (fd, s) := s.openFd .listen
    if fd = -1 then (false, s)
    else
      let s := s.registerInput fd
      (true, { s with listensocks := ⟨addr, fd, true⟩ :: s.listensocks })

/-- `updateListener`; no address means any, IPv6 first. -/
def updateListener (addr : Option String) (s : State) : State :=
  match addr with
  | some a => (updateListenerAddr a s).2
  | none =>
    let (ok, s) := updateListenerAddr "::" s
    if ok then s else (updateListenerAddr "0.0.0.0" s).2

/-- `destroyListeningSocket` on the descriptor. -/
def destroyListeningSocket (fd : Int) (s : State) : State := (s.close fd).unregisterInput fd

/-- The loop that destroys the sockets nobody referenced. -/
def dropListenSockets (s : State) : State :=
  let dead := (s.listensocks.filter fun l => !l.ref).map SockList.fd
  let s := { s with listensocks := s.listensocks.filter SockList.ref }
  dead.foldl (fun s fd => destroyListeningSocket fd s) s

def SockList.clearRef (l : SockList) : SockList := { l with ref := false }

/-- `updateListenSockets`. -/
def updateListenSockets (s : State) : State :=
  let s := { s with listensocks := s.listensocks.map SockList.clearRef }
  let s := s.listenAddrs.foldl (fun s a => updateListener a s) s
  dropListenSockets { s with currentRequestPort := s.conf.requestPort }

def anyListenSockets (s : State) : Bool := !s.listensocks.isEmpty

/-! ## Configured servers -/

/-- The display name in a server list item, before the `_` of a class. -/
def serverName (srv : String) : String := String.ofList (srv.toList.takeWhile (· ≠ '_'))

/-- What `addServers` writes to the display it found or made. -/
def claimDisplay (lifetime : Lifetime) (name : String) (d : Display) : Display :=
  { d with
    stillThere := true
    displayType := ⟨if name.toList.head? = some ':' then .dLocal else .dForeign, lifetime, .dFromFile⟩
    status :=
      if lifetime = .dReserve then
        if d.status = .notRunning then .reserve else d.status
      else if d.status = .reserve then .notRunning else d.status }

/-- One item in the loop of `addServers`. -/
def addServer (lifetime : Lifetime) (srv : String) (s : State) : Bool × State :=
  let name := serverName srv
  match findDisplayByName s name with
  | some d => (true, s.modify d.id (claimDisplay lifetime name))
  | none =>
    match newDisplay name s with
    | (some i, s) => (true, s.modify i (claimDisplay lifetime name))
    | (none, s) => (false, s)

/-- `addServers`; it gives up when memory runs out. -/
def addServers (lifetime : Lifetime) : List String → State → State
  | [], s => s
  | srv :: srvs, s =>
    match addServer lifetime srv s with
    | (true, s) => addServers lifetime srvs s
    | (false, s) => s

/-- `scanServers`. -/
def scanServers (s : State) : State :=
  addServers .dReserve s.conf.reserveServers (addServers .dPermanent s.conf.staticServers s)

/-! ## Reading the configuration -/

/-- `loadDMResources`. -/
def loadDMResources (force : Bool) (s : State) : Int × State :=
  match s.env.dmConf with
  | .failed none => (-1, s)
  | .failed (some c) => (-1, { s with conf := c })
  | .unchanged => (if force then 1 else 0, s)
  | .loaded c => (1, { s with conf := c })

/-- `scanAccessDatabase`, of which the daemon's main loop sees the addresses to listen on. -/
def scanAccessDatabase (s : State) : State :=
  match s.env.listenAddrs with
  | none => s
  | some addrs => { s with listenAddrs := addrs }

/-- `scanConfigs`. -/
def scanConfigs (force : Bool) (s : State) : Int × State :=
  let (ret, s) := loadDMResources force s
  if ret ≤ 0 then (ret, s) else (1, scanAccessDatabase (scanServers s))

/-- The path up to its second last `/`; nothing without a path. -/
def ctrlDir : Option (List Char) → List Char
  | none => []
  | some path =>
    ((path.reverse.dropWhile (· ≠ '/')).tail.dropWhile (· ≠ '/')).tail.reverse

/-- `updateCtrl`: a new global control socket when its directory or group changed. -/
def updateCtrl (s : State) : State :=
  if ctrlDir s.ctrl.path ≠ s.conf.fifoDir.toList ∨ s.ctrl.gid ≠ s.conf.fifoGroup then
    openCtrl none (closeCtrl none s)
  else s

/-- `rescanConfigs`. -/
def rescanConfigs (force : Bool) (s : State) : State :=
  let (ret, s) := scanConfigs force s
  if 0 < ret then updateCtrl (updateListenSockets s) else s

/-- `markDisplay`. -/
def markDisplay (i : Id) (s : State) : State := s.modify i fun d => { d with stillThere := false }

/-- `loadDisplayResources`. -/
def loadDisplayResources (i : Id) (s : State) : Int × State :=
  match s.env.dpyConf with
  | [] => (0, s)
  | r :: rs =>
    let s := { s with env := { s.env with dpyConf := rs } }
    match r with
    | .failed none => (-1, s)
    | .failed (some c) => (-1, s.modify i fun d => { d with conf := c })
    | .unchanged => (0, s)
    | .loaded c => (1, s.modify i fun d => { d with conf := c })

/-- `checkDisplayStatus`. -/
def checkDisplayStatus (i : Id) (s : State) : State :=
  s.withDisplay i fun d s =>
    if d.displayType.origin = .dFromFile ∧ d.stillThere = false then stopDisplay i s
    else if d.status = .notRunning then
      let (ret, s) := loadDisplayResources i s
      if ret < 0 then stopDisplay i s else s
    else s

/-! ## Shutting down -/

/-- `cancelShutdown`. -/
def cancelShutdown (s : State) : State :=
  rescanConfigs true { s with sdRec := { s.sdRec with how := 0, osname := none }, stopping := false }

/-- `stopInactiveDisplay`. -/
def stopInactiveDisplay (i : Id) (s : State) : State :=
  s.withDisplay i fun d s =>
    if d.status ≠ .remoteLogin ∧ d.userSess < 0 then stopDisplay i s else s

/-- `stoppen`. -/
def stoppen (force : Bool) (s : State) : State :=
  let s := updateListenSockets { s with conf := { s.conf with requestPort := 0 } }
  let s := if force then forEachDisplay stopDisplay s else forEachDisplay stopInactiveDisplay s
  { s with stopping := true }

end Kdm
