import Kdm.Xdmcp.Address

/-!
# The Xaccess database

`access.c`: the tables that `scanAccessDatabase` fills, and the questions that the XDMCP code
asks about a client.  The scans follow aliases without a bound on the depth, so they get the
depth of the stack and have no result when it does not suffice.
-/

namespace Kdm.Xdmcp

/-- `HostEntry`. -/
inductive HostEntry where
  | alias (aliasPattern : Bytes)
  | address (connectionType : UInt16) (hostAddress : Bytes)
  | pattern (hostPattern : Bytes)
  | broadcast
  deriving DecidableEq, Repr

structure ListenEntry where
  iface : Option Nat
  mcasts : Nat
  nmcasts : Nat
  deriving DecidableEq, Repr

structure AliasEntry where
  name : Bytes
  hosts : Nat
  nhosts : Nat
  deriving DecidableEq, Repr

/-- `AclEntry`; of `flags`, `a_notBroadcast` and `a_useChooser` are one bit. -/
structure AclEntry where
  entries : Nat
  nentries : Nat
  hosts : Nat
  nhosts : Nat
  a_notAllowed : Bool
  a_notBroadcast : Bool
  deriving DecidableEq, Repr

def AclEntry.a_useChooser (e : AclEntry) : Bool := e.a_notBroadcast

structure AccArr where
  hostList : List HostEntry
  listenList : List ListenEntry
  aliasList : List AliasEntry
  acList : List AclEntry
  deriving DecidableEq, Repr

/-- The host entries from number `fh` on. -/
def AccArr.slice (acc : AccArr) (fh nh : Nat) : List HostEntry := (acc.hostList.drop fh).take nh

def tolower (c : UInt8) : UInt8 := if 65 ≤ c ∧ c ≤ 90 then c + 32 else c

/-- `patternMatch`.  A backslash that ends the pattern makes the code read behind both strings;
here it does not match. -/
def patternMatch (string : Bytes) : Bytes → Bool
  | [] => string.isEmpty
  | 42 :: pattern =>
    if pattern.isEmpty then true
    else (List.range string.length).any fun i => patternMatch (string.drop i) pattern
  | 63 :: pattern =>
    match string with
    | [] => false
    | _ :: string => patternMatch string pattern
  | 92 :: p :: pattern =>
    match string with
    | [] => false
    | s :: string => tolower p == tolower s && patternMatch string pattern
  | p :: pattern =>
    match string with
    | [] => false
    | s :: string => p != 92 && tolower p == tolower s && patternMatch string pattern

/-- What `gethostbyaddr` and the checks behind it make of an address. -/
abbrev Resolver := UInt16 → Bytes → Option Bytes

/-- The host list of an entry as the callback sees it, and whether the local host is on it.
`localAddress` is `none` where the caller does not ask for the local host. -/
def scanHostlist (acc : AccArr) (connectionType : UInt16) (broadcast : Bool)
    (localAddress : Option Bytes) :
    Nat → List HostEntry → Option (List (UInt16 × Bytes) × Bool)
  | 0, _ => none
  | depth + 1, hosts =>
    hosts.foldlM (fun (calls, haveLocalhost) h =>
      match h with
      | .alias p =>
        acc.aliasList.foldlM (fun (calls, haveLocalhost) a =>
          if patternMatch a.name p then
            (scanHostlist acc connectionType broadcast localAddress depth
              (acc.slice a.hosts a.nhosts)).map fun r => (calls ++ r.1, haveLocalhost || r.2)
          else some (calls, haveLocalhost)) (calls, haveLocalhost)
      | .address _ addr =>
        if localAddress = some addr then some (calls, true)
        else some (calls ++ [(connectionType, addr)], haveLocalhost)
      | .broadcast =>
        some (if broadcast then calls ++ [(FamilyBroadcast, [])] else calls, haveLocalhost)
      | .pattern _ => some (calls, haveLocalhost)) ([], false)

def scanEntrylist (acc : AccArr) (names : Resolver) (clientAddress : Bytes)
    (connectionType : UInt16) : Nat → List HostEntry → Option Bool
  | 0, _ => none
  | depth + 1, hosts =>
    hosts.anyM fun h =>
      match h with
      | .alias p =>
        acc.aliasList.anyM fun a =>
          if patternMatch a.name p then
            scanEntrylist acc names clientAddress connectionType depth (acc.slice a.hosts a.nhosts)
          else some false
      | .pattern p => some (patternMatch ((names connectionType clientAddress).getD []) p)
      | .address type addr => some (type == connectionType && addr == clientAddress)
      | .broadcast => some false

/-- What the scans work on: the tables, the name service, the address of this host and the
depth of the stack. -/
structure Access where
  acc : AccArr
  names : Resolver
  localAddress : Bytes
  stackDepth : Nat

namespace Access

variable (x : Access) (clientAddress : Bytes) (connectionType : UInt16)

/-- The first entry of the kind asked for that matches the client. -/
def matchAclEntry (direct : Bool) : Option (Option AclEntry) :=
  x.acc.acList.findM? fun e =>
    if (e.nhosts == 0) == direct then
      scanEntrylist x.acc x.names clientAddress connectionType x.stackDepth
        (x.acc.slice e.entries e.nentries)
    else some false

def useChooser : Option Bool :=
  (x.matchAclEntry clientAddress connectionType false).map fun e =>
    e.any fun e => !e.a_notAllowed && e.a_useChooser

/-- Calls `function` for the hosts a query of the client goes to; `choice` is what
`indirectChoice` says.  The flag tells whether the local host is one of them. -/
def forEachMatchingIndirectHost (choice : Option Bytes) :
    Option (List (UInt16 × Bytes) × Bool) :=
  (x.matchAclEntry clientAddress connectionType false).bind fun e =>
    match e with
    | none => some ([], false)
    | some e =>
      if e.a_notAllowed then some ([], false)
      else if e.a_useChooser then
        match choice with
        | none => some ([], true)
        | some choice =>
          if x.localAddress = choice then some ([], true)
          else some ([(connectionType, choice)], false)
      else
        scanHostlist x.acc connectionType false (some x.localAddress) x.stackDepth
          (x.acc.slice e.hosts e.nhosts)

/-- The kinds of query. -/
inductive QueryType where
  | query
  | broadcast
  | indirect
  | forward
  deriving DecidableEq, Repr

def acceptableDisplayAddress (type : QueryType) : Option Bool :=
  if type = .indirect then some true
  else
    (x.matchAclEntry clientAddress connectionType true).map fun e =>
      e.any fun e => !e.a_notAllowed && (type != .broadcast || !e.a_notBroadcast)

end Access

end Kdm.Xdmcp
