import Kdm.Xdmcp.Choice

/-!
# Authentication and authorization

The parts of `policy.c`, `auth.c` and `xdmauth.c` that a REQUEST goes through, on the
`struct protoDisplay` it is for.  The memory of a new proto display is not cleared: the fields
`key` and `authenticationData` are `none` until the code writes them.
-/

namespace Kdm.Xdmcp

/-- The optional authorization schemes of a build. -/
structure Build where
  HASXDMAUTH : Bool
  SECURE_RPC : Bool
  K5AUTH : Bool

structure Xauth where
  name : Bytes
  data : Bytes
  deriving DecidableEq, Repr

/-- `struct protoDisplay`; `id` stands for its address. -/
structure ProtoDisplay where
  id : Nat
  address : Sockaddr
  displayNumber : UInt16
  connectionType : UInt16
  connectionAddress : Bytes
  date : Int
  sessionID : UInt32
  authenticationData : Option Bytes
  key : Option Bytes
  fileAuthorization : Option Xauth
  xdmcpAuthorization : Option Xauth
  deriving DecidableEq

/-- The contents of a REQUEST packet, with the length that its header states. -/
structure Request where
  displayNumber : UInt16
  connectionTypes : List UInt16
  connectionAddresses : List Bytes
  authenticationName : Bytes
  authenticationData : Bytes
  authorizationNames : List Bytes
  manufacturerDisplayID : Bytes
  length : Nat

/-- The functions of the XDMCP library that handle keys; a text is decrypted in place. -/
structure Crypt where
  wrap : Bytes → Bytes → Bytes
  unwrap : Bytes → Bytes → Bytes
  incrementKey : Bytes → Bytes
  unwrap_length : ∀ key data, (unwrap key data).length = data.length

/-- What the world answers while a packet is handled: the random bytes `generateAuthData` gets,
what the RPC and Kerberos helpers return, the lines of the key file, what lies in memory behind
an array and where nothing was written, the name computed for a display, whether a display that
is stopped still has a process, the tables the config reader sends and the outcome of the
`willing` command. -/
structure Env where
  malloc : Alloc → Bool := fun _ => true
  random : Nat → Option Bytes := fun _ => none
  helperAuth : Option Xauth := none
  keys : Option (List (Bytes × Bytes)) := none
  beyond : Bytes := []
  garbage : Bytes := []
  hostName : Option Bytes := none
  lingers : Bool := false
  xaccess : Option AccArr := none
  willingMsg : Bytes := []

/-! ## policy.c -/

/-- `auth`: the authorization that goes with an authentication. -/
def authTable (b : Build) : List (Bytes × Bytes) :=
  (if b.HASXDMAUTH then [(ascii "XDM-AUTHENTICATION-1", ascii "XDM-AUTHORIZATION-1")] else []) ++
    [([], [])]

def chooseAuthentication (b : Build) (authenticationNames : List Bytes) : Bytes :=
  (authenticationNames.find? fun n => (authTable b).any fun a => n == a.1).getD []

/-- `isAccepting` has no objections. -/
def isAccepting (_from : Sockaddr) (_displayNumber : UInt16) : Option Bytes := none

def selectConnectionTypeIndex (connectionTypes : List UInt16) : Option Nat :=
  connectionTypes.findIdx? fun t =>
    t == FamilyLocal || t == FamilyInternet || t == FamilyInternet6

/-! ## auth.c -/

inductive GetAuth where
  | mit
  | xdm
  | helper
  deriving DecidableEq, Repr

/-- `struct AuthProtocol`; `xdmcp` says whether it has a `GetXdmcpAuth`. -/
structure AuthProtocol where
  name : Bytes
  getAuth : GetAuth
  xdmcp : Bool
  deriving DecidableEq, Repr

def authProtocols (b : Build) : List AuthProtocol :=
  [⟨ascii "MIT-MAGIC-COOKIE-1", .mit, false⟩] ++
  (if b.HASXDMAUTH then [⟨ascii "XDM-AUTHORIZATION-1", .xdm, true⟩] else []) ++
  (if b.SECURE_RPC then [⟨ascii "SUN-DES-1", .helper, false⟩] else []) ++
  (if b.K5AUTH then [⟨ascii "MIT-KERBEROS-5", .helper, false⟩] else [])

def findProtocol (b : Build) (name : Bytes) : Option AuthProtocol :=
  (authProtocols b).find? fun a => a.name == name

def validAuthorization (b : Build) (name : Bytes) : Bool := (findProtocol b name).isSome

/-- The index of the authorization to use; 0 when no authorization is offered. -/
def selectAuthorizationTypeIndex (b : Build) (authenticationName : Bytes)
    (authorizationNames : List Bytes) : Option Nat :=
  let paired := ((authTable b).find? fun a => authenticationName == a.1).bind fun a =>
    authorizationNames.findIdx? (· == a.2)
  match paired with
  | some i => some i
  | none => authorizationNames.findIdx? (validAuthorization b)

def generateAuthHelper (env : Env) (name : Bytes) (nbytes : Nat) : Option Xauth :=
  (env.random nbytes).map fun data => ⟨name, data⟩

/-! ## xdmauth.c -/

/-- The first byte of the session key is cleared. -/
def xdmGetAuthHelper (env : Env) (name : Bytes) (nbytes : Nat) : Option Xauth :=
  (generateAuthHelper env name nbytes).map fun a =>
    { a with data := a.data.set (a.data.length - 8) 0 }

/-- `xdmGetXdmcpAuth`: the session key goes to the file authorization behind the random number
of the authentication, and encrypted to the XDMCP authorization. -/
def xdmGetXdmcpAuth (crypt : Crypt) (env : Env) (name : Bytes) (pdpy : ProtoDisplay) :
    ProtoDisplay :=
  if pdpy.fileAuthorization.isSome && pdpy.xdmcpAuthorization.isSome then pdpy
  else match xdmGetAuthHelper env name 8 with
    | none => pdpy
    | some xdmcpauth =>
      if env.malloc .fileAuthorization then
        let rho := (pdpy.authenticationData.getD env.garbage).take 8
        { pdpy with
          fileAuthorization := some ⟨xdmcpauth.name, rho ++ xdmcpauth.data⟩
          xdmcpAuthorization := some { xdmcpauth with
            data := crypt.wrap (pdpy.key.getD env.garbage) xdmcpauth.data } }
      else pdpy

/-- The digits of a hexadecimal number, two by two. -/
def hexToBinary : Bytes → Option Bytes
  | [] => some []
  | [_] => none
  | c1 :: c2 :: rest =>
    match hexDigit c1, hexDigit c2, hexToBinary rest with
    | some v1, some v2, some bytes => some ((v1 * 16 + v2) :: bytes)
    | _, _, _ => none
where
  hexDigit (c : UInt8) : Option UInt8 :=
    if 48 ≤ c ∧ c ≤ 57 then some (c - 48)
    else if 97 ≤ c ∧ c ≤ 102 then some (c - 97 + 10)
    else if 65 ≤ c ∧ c ≤ 70 then some (c - 65 + 10)
    else none

/-- The key of a line of the key file. -/
def keyBytes (key : Bytes) : Option Bytes :=
  if key.take 2 == ascii "0x" || key.take 2 == ascii "0X" then
    match hexToBinary (key.drop 2) with
    | none | some [] => none
    | some bytes => some bytes
  else some key

/-- `xdmGetKey`; the lines of the key file are read up to the first for the display. -/
def xdmGetKey (env : Env) (displayID : Bytes) (pdpy : ProtoDisplay) : Option ProtoDisplay :=
  (env.keys.bind fun keys => keys.find? fun l => l.1 == displayID).bind fun l =>
    (keyBytes l.2).map fun key =>
      { pdpy with key := some (0 :: (key ++ List.replicate 7 0).take 7) }

/-- `xdmcheckAuthentication`, with the authentication data it leaves in the packet. -/
def xdmcheckAuthentication (crypt : Crypt) (env : Env) (displayID authenticationData : Bytes)
    (pdpy : ProtoDisplay) : Bool × Bytes × ProtoDisplay :=
  match xdmGetKey env displayID pdpy with
  | none => (false, authenticationData, pdpy)
  | some pdpy =>
    if authenticationData.length ≠ 8 then (false, authenticationData, pdpy)
    else
      let key := pdpy.key.getD env.garbage
      let rho := crypt.unwrap key authenticationData
      if env.malloc .authenticationData then
        (true, crypt.wrap key (crypt.incrementKey rho),
          { pdpy with authenticationData := some rho })
      else (false, rho, pdpy)

/-- The test of `checkAuthentication`: the name is compared over 20 bytes, whatever its length
is. -/
def namesXdm (b : Build) (env : Env) (r : Request) : Bool :=
  b.HASXDMAUTH && !r.authenticationName.isEmpty &&
    (r.authenticationName ++ env.beyond).take 20 == ascii "XDM-AUTHENTICATION-1"

def checkAuthentication (b : Build) (crypt : Crypt) (env : Env) (r : Request)
    (pdpy : ProtoDisplay) : Bool × Bytes × ProtoDisplay :=
  if namesXdm b env r then
    xdmcheckAuthentication crypt env r.manufacturerDisplayID r.authenticationData pdpy
  else (true, r.authenticationData, pdpy)

/-- `(*a->GetAuth)(authorizationNameLen, authorizationName)`. -/
def getAuth (env : Env) (a : AuthProtocol) : Option Xauth :=
  match a.getAuth with
  | .mit => generateAuthHelper env a.name 16
  | .xdm => xdmGetAuthHelper env a.name 16
  | .helper => env.helperAuth

def setProtoDisplayAuthorization (b : Build) (crypt : Crypt) (env : Env) (name : Bytes)
    (pdpy : ProtoDisplay) : ProtoDisplay :=
  let pdpy := { pdpy with xdmcpAuthorization := none, fileAuthorization := none }
  match findProtocol b name with
  | none => pdpy
  | some a =>
    if a.xdmcp then xdmGetXdmcpAuth crypt env name pdpy
    else { pdpy with fileAuthorization := getAuth env a, xdmcpAuthorization := none }

end Kdm.Xdmcp
