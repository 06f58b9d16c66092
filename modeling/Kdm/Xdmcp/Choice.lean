import Kdm.Xdmcp.Access
import Mathlib.Data.Int.Notation

/-!
# Host choices

`choose.c`: the daemon remembers which clients sent an indirect query and which host the user
of such a client has chosen.  A client is found by the address, the port and the address family
its packets come from (`ChoiceRec.isOf`).
-/

namespace Kdm.Xdmcp

/-- The places where the XDMCP code allocates memory. -/
inductive Alloc where
  | protoDisplay
  | protoAddress
  | connectionAddress
  | authenticationData
  | fileAuthorization
  | displayClass
  | fromSave
  | display
  | authorizations
  | choiceRec
  | choiceClient
  | choicePort
  | choice
  deriving DecidableEq, Repr

/-- A client of the XDMCP service as the chooser identifies it. -/
structure Client where
  addr : Bytes
  port : Bytes
  connectionType : UInt16
  deriving DecidableEq, Repr

/-- `convertClientAddress`. -/
def Client.ofAddr (from_ : Sockaddr) : Client :=
  ⟨(convertAddr from_).2, netaddrPort from_, (convertAddr from_).1⟩

/-- `ChoiceRec`; `choice` is empty as long as nothing was chosen. -/
structure ChoiceRec where
  client : Bytes
  port : Bytes
  connectionType : UInt16
  choice : Option Bytes
  timeout : Int
  deriving DecidableEq, Repr

def ChoiceRec.isOf (c : ChoiceRec) (k : Client) : Bool :=
  k.addr == c.client && k.port == c.port && k.connectionType == c.connectionType

abbrev Choices := List ChoiceRec

namespace Choices

variable (choices : Choices) (k : Client)

/-- `disposeIndirectHosts` stops at the first record that has not timed out. -/
def disposeIndirectHosts (now : Int) : Choices :=
  choices.dropWhile fun c => !decide (now < c.timeout)

def indirectChoice : Option Bytes := (choices.find? (·.isOf k)).bind (·.choice)

/-- Removes the record of the client; the flag says that no host was chosen. -/
def checkIndirectChoice : Bool × Choices :=
  match choices.find? (·.isOf k) with
  | none => (false, choices)
  | some c => (c.choice.isNone, choices.eraseP (·.isOf k))

/-- `registerIndirectChoice`: the record of the client moves to the end of the list. -/
def registerIndirectChoice (malloc : Alloc → Bool) (timeout : Int) (choice : Option Bytes) :
    Choices :=
  let store (rest : Choices) (c : ChoiceRec) : Choices :=
    match choice with
    | none => rest ++ [{ c with timeout }]
    | some h => if malloc .choice then rest ++ [{ c with choice := some h, timeout }] else rest
  match choices.find? (·.isOf k) with
  | some c => store (choices.eraseP (·.isOf k)) c
  | none =>
    if malloc .choiceRec && malloc .choiceClient && malloc .choicePort then
      store choices ⟨k.addr, k.port, k.connectionType, none, timeout⟩
    else choices

end Choices

/-! ## Forwarding -/

def htons (n : Int) : Octets 2 :=
  ⟨[UInt8.ofNat (n % 65536 / 256).toNat, UInt8.ofNat (n % 256).toNat], rfl⟩

def zeros (n : Nat) : Octets n := ⟨List.replicate n 0, List.length_replicate⟩

/-- The address `sendForward` sends the query to, if it sends it. -/
def forwardAddr (requestPort : Int) (connectionType : UInt16) (address : Bytes) :
    Option Sockaddr :=
  if connectionType = FamilyInternet then
    if h : address.length = 4 then some (.inet (htons requestPort) ⟨address, h⟩) else none
  else if connectionType = FamilyInternet6 then
    if h : address.length = 16 then
      some (.inet6 (htons requestPort) (zeros 4) ⟨address, h⟩ (zeros 4))
    else none
  else none

end Kdm.Xdmcp
