import Kdm.Backend.Types
import Kdm.Lib.Runs
import Kdm.Xdmcp.Auth

/-!
# The XDMCP service of the daemon

`xdmcp.c`, `protodpy.c` and the part of `dpylist.c` that goes with them, as a machine that
handles one datagram after the other.  A datagram is what the XDMCP library made of it, with the
length that its header states; which datagrams arrive, how often and in which order is left open.
The events that are no datagrams stand for the rest of the daemon: the passes of the main loop,
the messages of choosers, rescans of the configuration, and what happens to the displays.

The log records what the service has done, newest first.
-/

namespace Kdm.Xdmcp

open Access (QueryType)

/-! ## Packets -/

structure Manage where
  sessionID : UInt32
  displayNumber : UInt16
  displayClass : Bytes
  length : Nat

inductive Packet where
  | query (type : QueryType) (authenticationNames : List Bytes) (length : Nat)
  | forward (clientAddress clientPort : Bytes) (authenticationNames : List Bytes) (length : Nat)
  | request (r : Request)
  | manage (m : Manage)
  | keepAlive (displayNumber : UInt16) (sessionID : UInt32) (length : Nat)

/-- `expectlen` for an array of arrays. -/
def arraysLength (names : List Bytes) : Nat := 1 + (names.map fun n => 2 + n.length).sum

def Request.expectlen (r : Request) : Nat :=
  2 + (1 + 2 * r.connectionTypes.length) + arraysLength r.connectionAddresses +
    (2 + r.authenticationName.length) + (2 + r.authenticationData.length) +
    arraysLength r.authorizationNames + (2 + r.manufacturerDisplayID.length)

def Manage.expectlen (m : Manage) : Nat := 4 + 2 + (2 + m.displayClass.length)

/-- The contents of an ACCEPT packet. -/
structure Accept where
  sessionID : UInt32
  authenticationName : Bytes
  authenticationData : Bytes
  authorizationName : Bytes
  authorizationData : Bytes
  deriving DecidableEq

inductive Reply where
  | willing (authenticationName status : Bytes)
  | unwilling (status : Bytes)
  | forwardQuery (clientAddress clientPort : Bytes) (authenticationNames : List Bytes)
  | decline (status authenticationName authenticationData : Bytes)
  | refuse (sessionID : UInt32)
  | failed (sessionID : UInt32) (name reason : Bytes)
  | alive (running : Bool) (sessionID : UInt32)
  deriving DecidableEq

/-! ## State -/

/-- The part of `struct display` that the XDMCP code reads or writes; `id` stands for its
address. -/
structure Display where
  id : Nat
  name : Bytes
  displayType : DisplayType
  status : DisplayStatus
  sessionID : UInt32
  fromAddr : Option Sockaddr
  displayNumber : UInt16
  client : Client
  useChooser : Bool
  class2 : Bytes
  authorizations : Option Xauth
  deriving DecidableEq

/-- What the service has done: an ACCEPT or another packet was sent, `xdmGetXdmcpAuth` was called,
a proto display was given up, or a display was created for it. -/
inductive Entry where
  | accept (dest : Sockaddr) (pdpy : ProtoDisplay) (a : Accept)
  | sent (dest : Sockaddr) (reply : Reply)
  | xdmAuth (pdpy : ProtoDisplay)
  | timedOut (pdpy : ProtoDisplay)
  | declined (pdpy : ProtoDisplay)
  | managed (pdpy : ProtoDisplay) (d : Display)
  deriving DecidableEq

structure Conf where
  autoRescan : Bool
  willing : Bytes
  choiceTimeout : Int
  requestPort : Int

structure Daemon where
  conf : Conf
  access : Access
  now : Int
  lastscan : Int
  globalSessionID : Nat
  nextId : Nat
  protoDisplays : List ProtoDisplay
  displays : List Display
  choices : Choices
  log : List Entry

def Daemon.note (s : Daemon) (e : Entry) : Daemon := { s with log := e :: s.log }

def Daemon.send (s : Daemon) (dest : Sockaddr) (r : Reply) : Daemon := s.note (.sent dest r)

/-! ## Lookup -/

def ProtoDisplay.isFor (p : ProtoDisplay) (address : Sockaddr) (displayNumber : UInt16) : Bool :=
  p.displayNumber == displayNumber && addressEqual address p.address

def findProtoDisplay (s : Daemon) (address : Sockaddr) (displayNumber : UInt16) :
    Option ProtoDisplay :=
  s.protoDisplays.find? (·.isFor address displayNumber)

def findDisplayByName (s : Daemon) (name : Bytes) : Option Display :=
  s.displays.find? (·.name == name)

def findDisplayBySessionID (s : Daemon) (sessionID : UInt32) : Option Display :=
  s.displays.find? (·.sessionID == sessionID)

def findDisplayByAddress (s : Daemon) (address : Sockaddr) (displayNumber : UInt16) :
    Option Display :=
  s.displays.find? fun d => d.displayType.origin == .dFromXDMCP &&
    d.displayNumber == displayNumber && d.fromAddr.any (addressEqual · address)

/-! ## protodpy.c -/

def PROTO_TIMEOUT : Int := 30 * 60

/-- The value of `x` as an `unsigned long`. -/
def unsignedLong (x : Int) : Int := x % 2 ^ 64

def ProtoDisplay.expired (p : ProtoDisplay) (now : Int) : Bool :=
  decide (p.date < unsignedLong (now - PROTO_TIMEOUT))

def timeoutProtoDisplays (s : Daemon) : Daemon :=
  { s with
    protoDisplays := s.protoDisplays.filter fun p => !p.expired s.now
    log := (s.protoDisplays.filter (·.expired s.now)).map .timedOut ++ s.log }

def newProtoDisplay (env : Env) (address : Sockaddr) (displayNumber connectionType : UInt16)
    (connectionAddress : Bytes) (sessionID : UInt32) (s : Daemon) : Option ProtoDisplay × Daemon :=
  let s := timeoutProtoDisplays s
  if env.malloc .protoDisplay && env.malloc .protoAddress && env.malloc .connectionAddress then
    let pdpy : ProtoDisplay :=
      { id := s.nextId, address, displayNumber, connectionType, connectionAddress
        date := unsignedLong s.now, sessionID
        authenticationData := none, key := none
        fileAuthorization := none, xdmcpAuthorization := none }
    (some pdpy, { s with nextId := s.nextId + 1, protoDisplays := pdpy :: s.protoDisplays })
  else (none, s)

/-- `disposeProtoDisplay` unlinks the node it is given. -/
def disposeProtoDisplay (pdpy : ProtoDisplay) (s : Daemon) : Daemon :=
  { s with protoDisplays := s.protoDisplays.filter (·.id != pdpy.id) }

/-- What the handlers write through their pointer. -/
def Daemon.write (s : Daemon) (pdpy : ProtoDisplay) : Daemon :=
  { s with protoDisplays := s.protoDisplays.map fun p => if p.id = pdpy.id then pdpy else p }

/-! ## Queries -/

def notAuthorized : Bytes := ascii "Display not authorized to connect"

/-- `isWilling`, with the rescan that it makes now and then. -/
def isWilling (env : Env) (k : Client) (type : QueryType) (s : Daemon) :
    Option (Bool × Bytes × Daemon) :=
  let s :=
    if s.conf.autoRescan && decide (s.lastscan + 15 < s.now) then
      { s with lastscan := s.now, access := { s.access with acc := env.xaccess.getD s.access.acc } }
    else s
  (s.access.acceptableDisplayAddress k.addr k.connectionType type).map fun ret =>
    (ret,
      if ret then
        if s.conf.willing.isEmpty then ascii "Willing to manage" else env.willingMsg
      else notAuthorized,
      s)

def allQueryRespond (b : Build) (env : Env) (from_ : Sockaddr) (authenticationNames : List Bytes)
    (type : QueryType) (s : Daemon) : Option Daemon :=
  let k := Client.ofAddr from_
  let s :=
    if type = .indirect then
      { s with choices :=
          s.choices.registerIndirectChoice k env.malloc (s.now + s.conf.choiceTimeout) none }
    else { s with choices := (s.choices.checkIndirectChoice k).2 }
  (isWilling env k type s).map fun (ret, status, s) =>
    if ret then s.send from_ (.willing (chooseAuthentication b authenticationNames) status)
    else if type = .query then s.send from_ (.unwilling status)
    else s

/-- `sendForward`. -/
def sendForward (k : Client) (names : List Bytes) (dest : UInt16 × Bytes) (s : Daemon) : Daemon :=
  match forwardAddr s.conf.requestPort dest.1 dest.2 with
  | some addr => s.send addr (.forwardQuery k.addr k.port names)
  | none => s

def indirectRespond (b : Build) (env : Env) (from_ : Sockaddr) (names : List Bytes) (length : Nat)
    (s : Daemon) : Option Daemon :=
  if length ≠ arraysLength names then some s
  else
    let k := Client.ofAddr from_
    (s.access.forEachMatchingIndirectHost k.addr k.connectionType
      (s.choices.indirectChoice k)).bind fun (hosts, localHostAsWell) =>
        let s := hosts.foldl (fun s dest => sendForward k names dest s) s
        if localHostAsWell then allQueryRespond b env from_ names .indirect s else some s

def directQueryRespond (b : Build) (env : Env) (from_ : Sockaddr) (names : List Bytes)
    (length : Nat) (type : QueryType) (s : Daemon) : Option Daemon :=
  if length ≠ arraysLength names then some s
  else allQueryRespond b env from_ names type s

/-- The client a FORWARD_QUERY speaks for; the address family is that of the forwarder. -/
def forwardedClient (from_ : Sockaddr) (clientAddress clientPort : Bytes) : Option Sockaddr :=
  if hp : clientPort.length = 2 then
    match from_ with
    | .inet _ _ =>
      if h : clientAddress.length = 4 then some (.inet ⟨clientPort, hp⟩ ⟨clientAddress, h⟩) else none
    | .inet6 _ _ _ _ =>
      if h : clientAddress.length = 16 then
        some (.inet6 ⟨clientPort, hp⟩ (zeros 4) ⟨clientAddress, h⟩ (zeros 4))
      else if h : clientAddress.length = 4 then
        some (.inet6 ⟨clientPort, hp⟩ (zeros 4)
          ⟨v4Prefix ++ clientAddress, by rw [List.length_append, h]; rfl⟩ (zeros 4))
      else none
  else none

def forwardRespond (b : Build) (env : Env) (from_ : Sockaddr) (clientAddress clientPort : Bytes)
    (names : List Bytes) (length : Nat) (s : Daemon) : Option Daemon :=
  if length ≠ (2 + clientAddress.length) + (2 + clientPort.length) + arraysLength names then some s
  else match forwardedClient from_ clientAddress clientPort with
    | none => some s
    | some client => allQueryRespond b env client names .forward s

/-! ## REQUEST -/

def outOfMemory : Bytes := ascii "Out of memory"
def noValidAddr : Bytes := ascii "No valid address"
def noValidAuth : Bytes := ascii "No valid authorization"
def noAuthentic : Bytes := ascii "XDM has no authentication key"

/-- `decline:` without a proto display. -/
def declineRequest (from_ : Sockaddr) (r : Request) (reason : Bytes) (s : Daemon) : Daemon :=
  s.send from_ (.decline reason r.authenticationName r.authenticationData)

/-- `decline:` with a proto display, which is disposed. -/
def declineDisplay (from_ : Sockaddr) (r : Request) (reason authenticationData : Bytes)
    (pdpy : ProtoDisplay) (s : Daemon) : Daemon :=
  (disposeProtoDisplay pdpy
    (s.send from_ (.decline reason r.authenticationName authenticationData))).note (.declined pdpy)

/-- The index of the authorization for a REQUEST. -/
def authorizationIndex (b : Build) (r : Request) : Option Nat :=
  if r.authorizationNames.isEmpty then some 0
  else selectAuthorizationTypeIndex b r.authenticationName r.authorizationNames

/-- What the ACCEPT for a proto display says about the authorization. -/
def ProtoDisplay.offer (p : ProtoDisplay) : Option Xauth :=
  match p.xdmcpAuthorization with
  | some auth => some auth
  | none => p.fileAuthorization

/-- The ACCEPT packet for an authorization. -/
def acceptPacket (r : Request) (authenticationData : Bytes) (auth : Option Xauth)
    (pdpy : ProtoDisplay) : Accept :=
  ⟨pdpy.sessionID, r.authenticationName, authenticationData,
    (auth.map (·.name)).getD [], (auth.map (·.data)).getD []⟩

def sendAccept (from_ : Sockaddr) (r : Request) (authenticationData : Bytes)
    (auth : Option Xauth) (pdpy : ProtoDisplay) (s : Daemon) : Daemon :=
  s.note (.accept from_ pdpy (acceptPacket r authenticationData auth pdpy))

/-- The authorization of the proto display is set up, unless none was offered. -/
def authorizeDisplay (b : Build) (crypt : Crypt) (env : Env) (name : Option Bytes)
    (pdpy : ProtoDisplay) : Option Xauth × ProtoDisplay :=
  match name with
  | none => (none, pdpy)
  | some name =>
    let pdpy := setProtoDisplayAuthorization b crypt env name pdpy
    (pdpy.offer, pdpy)

/-- `setProtoDisplayAuthorization` goes on to `xdmGetXdmcpAuth`. -/
def callsXdmAuth (b : Build) (name : Option Bytes) : Bool :=
  name.any fun n => (findProtocol b n).any (·.xdmcp)

def Daemon.noteXdmAuth (s : Daemon) (b : Build) (name : Option Bytes) (pdpy : ProtoDisplay) :
    Daemon :=
  if callsXdmAuth b name then s.note (.xdmAuth pdpy) else s

/-- The part of `request_respond` behind the search for the proto display. -/
def answerRequest (b : Build) (crypt : Crypt) (env : Env) (from_ : Sockaddr) (r : Request)
    (pdpy : ProtoDisplay) (s : Daemon) : Daemon :=
  match authorizationIndex b r with
  | none => declineDisplay from_ r noValidAuth r.authenticationData pdpy s
  | some j =>
    match checkAuthentication b crypt env r pdpy with
    | (false, data, pdpy) => declineDisplay from_ r noAuthentic data pdpy s
    | (true, data, pdpy) =>
      let name := r.authorizationNames[j]?
      let (auth, pdpy') := authorizeDisplay b crypt env name pdpy
      sendAccept from_ r data auth pdpy' ((s.noteXdmAuth b name pdpy).write pdpy')

def requestRespond (b : Build) (crypt : Crypt) (env : Env) (from_ : Sockaddr) (r : Request)
    (s : Daemon) : Daemon :=
  if r.expectlen ≠ r.length then s
  else if r.connectionTypes.length = 0 ∨
      r.connectionAddresses.length ≠ r.connectionTypes.length then
    declineRequest from_ r noValidAddr s
  else match findProtoDisplay s from_ r.displayNumber with
    | some pdpy => answerRequest b crypt env from_ r pdpy s
    | none =>
      match isAccepting from_ r.displayNumber with
      | some reason => declineRequest from_ r reason s
      | none =>
        match selectConnectionTypeIndex r.connectionTypes with
        | none => declineRequest from_ r noValidAddr s
        | some i =>
          -- the session ID is drawn before the proto display is allocated
          let s := { s with globalSessionID := s.globalSessionID + 1 }
          match newProtoDisplay env from_ r.displayNumber (r.connectionTypes.getD i 0)
              (r.connectionAddresses.getD i []) (UInt32.ofNat s.globalSessionID) s with
          | (none, s) => declineRequest from_ r outOfMemory s
          | (some pdpy, s) => answerRequest b crypt env from_ r pdpy s

/-! ## MANAGE -/

/-- `networkAddressToName` has names for the Internet families only. -/
def networkAddressToName (env : Env) (pdpy : ProtoDisplay) : Option Bytes :=
  if pdpy.connectionType = FamilyInternet ∨ pdpy.connectionType = FamilyInternet6 then env.hostName
  else none

/-- `stopDisplay`: the display stays as a zombie while it has processes. -/
def stopDisplay (env : Env) (d : Display) (s : Daemon) : Daemon :=
  { s with displays :=
      if env.lingers then
        s.displays.map fun e => if e.id = d.id then { e with status := .zombie } else e
      else s.displays.filter (·.id != d.id) }

/-- An active display of the name is stopped first. -/
def stopActive (env : Env) (name : Bytes) (s : Daemon) : Daemon :=
  match findDisplayByName s name with
  | some d => stopDisplay env d s
  | none => s

def Daemon.fail (s : Daemon) (dest : Sockaddr) (sessionID : UInt32) (name : Bytes) : Daemon :=
  s.send dest (.failed sessionID name (ascii "out of memory"))

/-- The display for a proto display. -/
def createDisplay (env : Env) (from_ : Sockaddr) (m : Manage) (name : Bytes) (pdpy : ProtoDisplay)
    (s : Daemon) : Option Daemon :=
  let k := Client.ofAddr from_
  let (undecided, choices) := s.choices.checkIndirectChoice k
  (if undecided then s.access.useChooser k.addr k.connectionType else some false).map fun chooser =>
    let s := { s with choices }
    if pdpy.fileAuthorization.isSome && !env.malloc .authorizations then
      s.fail from_ m.sessionID name
    else
      let d : Display :=
        { id := s.nextId, name
          displayType := ⟨.dForeign, .dTransient, .dFromXDMCP⟩
          status := .notRunning
          sessionID := pdpy.sessionID
          fromAddr := some from_
          displayNumber := pdpy.displayNumber
          client := k
          useChooser := chooser
          class2 := m.displayClass
          authorizations := pdpy.fileAuthorization }
      (disposeProtoDisplay pdpy
        { s with nextId := s.nextId + 1, displays := d :: s.displays }).note (.managed pdpy d)

def manage (env : Env) (from_ : Sockaddr) (m : Manage) (s : Daemon) : Option Daemon :=
  if m.expectlen ≠ m.length then some s
  else
    match findProtoDisplay s from_ m.displayNumber with
    | none =>
      if (findDisplayByAddress s from_ m.displayNumber).any (·.sessionID == m.sessionID) then some s
      else some (s.send from_ (.refuse m.sessionID))
    | some pdpy =>
      if pdpy.sessionID ≠ m.sessionID then some (s.send from_ (.refuse m.sessionID))
      else
        match networkAddressToName env pdpy with
        | none => some (s.fail from_ m.sessionID (ascii "(no name)"))
        | some name =>
          let s := stopActive env name s
          if !m.displayClass.isEmpty && !env.malloc .displayClass then
            some (s.fail from_ m.sessionID name)
          else if !env.malloc .fromSave then some (s.fail from_ m.sessionID name)
          else if !env.malloc .display then some (s.fail from_ m.sessionID name)
          else createDisplay env from_ m name pdpy s

/-! ## KEEPALIVE -/

/-- The display that `send_alive` answers for. -/
def aliveDisplay (s : Daemon) (from_ : Sockaddr) (displayNumber : UInt16) (sessionID : UInt32) :
    Option Display :=
  match findDisplayBySessionID s sessionID with
  | some d => some d
  | none => findDisplayByAddress s from_ displayNumber

/-- `sendRunning` and `sendSessionID`. -/
def aliveAnswer (s : Daemon) (from_ : Sockaddr) (displayNumber : UInt16) (sessionID : UInt32) :
    Bool × UInt32 :=
  match aliveDisplay s from_ displayNumber sessionID with
  | some d => if d.status = .running then (d.sessionID == sessionID, d.sessionID) else (false, 0)
  | none => (false, 0)

def sendAlive (from_ : Sockaddr) (displayNumber : UInt16) (sessionID : UInt32) (length : Nat)
    (s : Daemon) : Daemon :=
  if length ≠ 6 then s
  else
    let (running, id) := aliveAnswer s from_ displayNumber sessionID
    s.send from_ (.alive running id)

/-! ## The machine -/

def processRequestSocket (b : Build) (crypt : Crypt) (env : Env) (from_ : Sockaddr) (p : Packet)
    (s : Daemon) : Option Daemon :=
  match p with
  | .query .indirect names length => indirectRespond b env from_ names length s
  | .query type names length => directQueryRespond b env from_ names length type s
  | .forward addr port names length => forwardRespond b env from_ addr port names length s
  | .request r => some (requestRespond b crypt env from_ r s)
  | .manage m => manage env from_ m s
  | .keepAlive n sessionID length => some (sendAlive from_ n sessionID length s)

inductive Event where
  /-- a datagram arrives -/
  | packet (from_ : Sockaddr) (p : Packet) (env : Env)
  /-- a `D_ChooseHost` message of a chooser is processed -/
  | choose (client : Client) (host : Bytes) (env : Env)
  /-- the main loop reads the clock and disposes what has timed out -/
  | loop (now : Int)
  /-- the configuration and the Xaccess database are loaded -/
  | rescan (conf : Conf) (acc : AccArr)
  /-- the name service or the address of this host changes -/
  | network (names : Resolver) (localAddress : Bytes)
  /-- a display changes its status -/
  | status (id : Nat) (status : DisplayStatus)
  /-- a display leaves the list -/
  | gone (id : Nat)
  /-- a display of another origin is created -/
  | other (name : Bytes) (type : DisplayType)

/-- A display that `newDisplay` made for the configuration or for a command. -/
def Display.other (id : Nat) (name : Bytes) (type : DisplayType) : Display :=
  { id, name, displayType := type, status := .notRunning, sessionID := 0, fromAddr := none
    displayNumber := 0, client := ⟨[], [], 0⟩, useChooser := false, class2 := []
    authorizations := none }

/-- One step; none where the daemon runs out of stack. -/
def step (b : Build) (crypt : Crypt) (e : Event) (s : Daemon) : Option Daemon :=
  match e with
  | .packet from_ p env => processRequestSocket b crypt env from_ p s
  | .choose k host env =>
    some { s with
      choices := s.choices.registerIndirectChoice k env.malloc (s.now + s.conf.choiceTimeout)
        (some host) }
  | .loop now =>
    if s.now ≤ now then some { s with now, choices := s.choices.disposeIndirectHosts now } else none
  | .rescan conf acc => some { s with conf, access := { s.access with acc } }
  | .network names localAddress => some { s with access := { s.access with names, localAddress } }
  | .status id status =>
    some { s with displays := s.displays.map fun d => if d.id = id then { d with status } else d }
  | .gone id => some { s with displays := s.displays.filter (·.id != id) }
  | .other name type =>
    if type.origin = .dFromXDMCP then none
    else some { s with
      nextId := s.nextId + 1, displays := Display.other s.nextId name type :: s.displays }

/-- `initXdmcp` at time `t`, before any display was created. -/
def initXdmcp (conf : Conf) (access : Access) (now : Int) (t : Nat) : Daemon :=
  { conf, access, now, lastscan := 0, globalSessionID := t % 0x8000 * 16000, nextId := 0
    protoDisplays := [], displays := [], choices := [], log := [] }

/-! ## A small set-up -/

namespace Sample

def build : Build := ⟨false, false, false⟩
def cipher : Crypt := ⟨fun _ d => d, fun _ d => d, id, fun _ _ => rfl⟩
def conf : Conf := ⟨false, [], 15, 177⟩
def access : Access := ⟨⟨[], [], [], []⟩, fun _ _ => none, [127, 0, 0, 1], 8⟩
def client : Sockaddr := .inet (htons 1024) ⟨[192, 168, 0, 2], rfl⟩

def request (authorizationNames : List Bytes) (length : Nat) : Request where
  displayNumber := 0
  connectionTypes := [FamilyInternet]
  connectionAddresses := [[192, 168, 0, 2]]
  authenticationName := []
  authenticationData := []
  authorizationNames
  manufacturerDisplayID := []
  length

end Sample

end Kdm.Xdmcp
