import Kdm.Ipc.Block
import Kdm.Xaccess.Lists

/-!
# The Xaccess tables in the daemon

`readAccessFile` sends its counts and tables, and `scanAccessDatabase` (`access.c`) stores them in
one block.  The counts, indices and lengths of the daemon are `short`.  After an unknown type of
host the tables are not filled, which is no result here.
-/

namespace Kdm.Xaccess

open Codec Ipc

/-! ## Sending -/

def HOST_ALIAS : BitVec 32 := 0
def HOST_ADDRESS : BitVec 32 := 1
def HOST_PATTERN : BitVec 32 := 2
def HOST_BROADCAST : BitVec 32 := 3

/-- A number of the config reader as an `int`. -/
def int (n : Nat) : BitVec 32 := BitVec.ofNat 32 n

def Addrinfo.family : Addrinfo → BitVec 32
  | .inet _ => BitVec.ofNat 32 Xdmcp.AF_INET
  | .inet6 _ => BitVec.ofNat 32 Xdmcp.AF_INET6

def Addrinfo.arr (ai : Addrinfo) : Arr := ⟨ai.addr, by
  cases ai with
  | inet a => exact Nat.lt_of_le_of_lt (Nat.le_of_eq a.2) (by decide)
  | inet6 a => exact Nat.lt_of_le_of_lt (Nat.le_of_eq a.2) (by decide)⟩

def HostEntry.send : HostEntry → Option Bytes
  | .alias p => sendAll [Config.gSendInt HOST_ALIAS, Config.gSendStr (some p)]
  | .pattern p => sendAll [Config.gSendInt HOST_PATTERN, Config.gSendStr (some p)]
  | .address ai =>
    sendAll [Config.gSendInt HOST_ADDRESS, Config.gSendArr ai.arr, Config.gSendInt ai.family]
  | .broadcast => sendAll [Config.gSendInt HOST_BROADCAST]

def ListenEntry.send (l : ListenEntry) : Option Bytes :=
  sendAll [Config.gSendInt (l.iface.elim (-1) int), Config.gSendInt (int l.mcasts),
    Config.gSendInt (int l.nmcasts)]

def AliasEntry.send (a : AliasEntry) : Option Bytes :=
  sendAll [Config.gSendStr (some a.name), Config.gSendInt (int a.hosts),
    Config.gSendInt (int a.nhosts)]

def AclEntry.send (a : AclEntry) : Option Bytes :=
  sendAll [Config.gSendInt (int a.entries), Config.gSendInt (int a.nentries),
    Config.gSendInt (int a.hosts), Config.gSendInt (int a.nhosts), Config.gSendInt a.flags]

def Tables.send (t : Tables) : Option Bytes :=
  sendAll ([Config.gSendInt (int t.hostList.length), Config.gSendInt (int t.listenList.length),
    Config.gSendInt (int t.aliasList.length), Config.gSendInt (int t.acList.length),
    Config.gSendInt (int t.nChars)] ++ t.hostList.map HostEntry.send ++
    t.listenList.map ListenEntry.send ++ t.aliasList.map AliasEntry.send ++
    t.acList.map AclEntry.send)

/-! ## Receiving -/

/-- A host entry of the daemon, with pointers into its block. -/
inductive HostRes where
  | alias (aliasPattern : Stored)
  | address (connectionType : UInt16) (hostAddress : Stored)
  | pattern (hostPattern : Stored)
  | broadcast

structure ListenRes where
  iface : BitVec 16
  mcasts : BitVec 16
  nmcasts : BitVec 16

structure AliasRes where
  name : Stored
  hosts : BitVec 16
  nhosts : BitVec 16

structure AclRes where
  entries : BitVec 16
  nentries : BitVec 16
  hosts : BitVec 16
  nhosts : BitVec 16
  flags : BitVec 16

/-- `accData`, and how far the characters were filled. -/
structure AccData where
  nHosts : BitVec 16
  nListens : BitVec 16
  nAliases : BitVec 16
  nAcls : BitVec 16
  nChars : BitVec 32
  hostList : List HostRes
  listenList : List ListenRes
  aliasList : List AliasRes
  acList : List AclRes
  cptr : Int

/-- An `int` that is stored in a `short`. -/
def recvShort : Reader UInt8 (BitVec 16) := Backend.gRecvInt.map (·.setWidth 16)

/-- The address family that the daemon knows for a type. -/
def familyOf (type : BitVec 32) : UInt16 :=
  if type = BitVec.ofNat 32 Xdmcp.AF_INET then Xdmcp.FamilyInternet
  else if type = BitVec.ofNat 32 Xdmcp.AF_INET6 then Xdmcp.FamilyInternet6
  else if type = 12 then Xdmcp.FamilyDECnet
  else Xdmcp.FamilyLocal

/-- The length of an `ARRAY8` has 16 bits. -/
def recvAddr (nchr cptr : Int) : Reader UInt8 (Stored × Int) :=
  recvBuf (fun len => ((len.setWidth 16).toNat : Int)) nchr cptr

def recvHost (nchr cptr : Int) : Reader UInt8 (HostRes × Int) :=
  recvShort.bind fun type =>
    if type = HOST_ALIAS.setWidth 16 then (recvStr nchr cptr).map fun r => (.alias r.1, r.2)
    else if type = HOST_PATTERN.setWidth 16 then
      (recvStr nchr cptr).map fun r => (.pattern r.1, r.2)
    else if type = HOST_ADDRESS.setWidth 16 then
      (recvAddr nchr cptr).bind fun r =>
        Backend.gRecvInt.map fun type => (.address (familyOf type) r.1, r.2)
    else if type = HOST_BROADCAST.setWidth 16 then Reader.pure (.broadcast, cptr)
    else fun _ => none

def recvListen : Reader UInt8 ListenRes :=
  recvShort.bind fun iface => recvShort.bind fun mcasts => recvShort.map fun nmcasts =>
    ⟨iface, mcasts, nmcasts⟩

def recvAlias (nchr cptr : Int) : Reader UInt8 (AliasRes × Int) :=
  (recvStr nchr cptr).bind fun r => recvShort.bind fun hosts => recvShort.map fun nhosts =>
    (⟨r.1, hosts, nhosts⟩, r.2)

def recvAcl : Reader UInt8 AclRes :=
  recvShort.bind fun entries => recvShort.bind fun nentries => recvShort.bind fun hosts =>
    recvShort.bind fun nhosts => recvShort.map fun flags =>
      ⟨entries, nentries, hosts, nhosts, flags⟩

/-- The size that is asked for, as a `size_t`. -/
def blockSize (nHosts nListens nAliases nAcls : BitVec 16) (nChars : BitVec 32) : Nat :=
  ((nHosts.toInt * 32 + nListens.toInt * 6 + nAliases.toInt * 16 + nAcls.toInt * 10 +
    nChars.toInt) % 2 ^ 64).toNat

/-- How often a loop up to a `short` runs. -/
def times (n : BitVec 16) : Nat := n.toInt.toNat

/-- The tables behind the counts. -/
def recvTables (nHosts nListens nAliases nAcls : BitVec 16) (nChars : BitVec 32) :
    Reader UInt8 AccData :=
  (Reader.iterate (recvHost nChars.toInt) (times nHosts) 0).bind fun hosts =>
  (readAll (List.replicate (times nListens) recvListen)).bind fun listens =>
  (Reader.iterate (recvAlias nChars.toInt) (times nAliases) hosts.2).bind fun aliases =>
  (readAll (List.replicate (times nAcls) recvAcl)).map fun acls =>
    ⟨nHosts, nListens, nAliases, nAcls, nChars, hosts.1, listens, aliases.1, acls, aliases.2⟩

def scanAccessDatabase (heap : Heap) : Reader UInt8 AccData :=
  recvShort.bind fun nHosts => recvShort.bind fun nListens => recvShort.bind fun nAliases =>
  recvShort.bind fun nAcls => Backend.gRecvInt.bind fun nChars =>
    if heap.malloc (blockSize nHosts nListens nAliases nAcls nChars) then
      recvTables nHosts nListens nAliases nAcls nChars
    else fun _ => none

/-! ## What the daemon must have -/

def HostRes.strings : HostRes → List Stored
  | .alias p => [p]
  | .address _ p => [p]
  | .pattern p => [p]
  | .broadcast => []

def AccData.strings (data : AccData) : List Stored :=
  data.hostList.flatMap HostRes.strings ++ data.aliasList.map (·.name)

/-- A host has the pattern or the address that was sent. -/
inductive HostHolds : HostEntry → HostRes → Prop where
  | aliasPattern {p : CStr} {off : Int} : HostHolds (.alias p) (.alias ⟨off, some (p.1 ++ [0])⟩)
  | hostPattern {p : CStr} {off : Int} : HostHolds (.pattern p) (.pattern ⟨off, some (p.1 ++ [0])⟩)
  | displayAddress {ai : Addrinfo} {off : Int} :
      HostHolds (.address ai) (.address (familyOf ai.family) ⟨off, some ai.addr⟩)
  | broadcast : HostHolds .broadcast .broadcast

structure ListenHolds (l : ListenEntry) (r : ListenRes) : Prop where
  iface : r.iface.toInt = l.iface.elim (-1) fun i => (i : Int)
  mcasts : r.mcasts.toInt = l.mcasts
  nmcasts : r.nmcasts.toInt = l.nmcasts

structure AliasHolds (a : AliasEntry) (r : AliasRes) : Prop where
  name : r.name.buf = some (a.name.1 ++ [0])
  hosts : r.hosts.toInt = a.hosts
  nhosts : r.nhosts.toInt = a.nhosts

structure AclHolds (a : AclEntry) (r : AclRes) : Prop where
  entries : r.entries.toInt = a.entries
  nentries : r.nentries.toInt = a.nentries
  hosts : r.hosts.toInt = a.hosts
  nhosts : r.nhosts.toInt = a.nhosts
  flags : r.flags.setWidth 32 = a.flags

/-- Every start index plus length stays within the host table. -/
structure AccData.InTable (data : AccData) : Prop where
  nHosts : data.nHosts.toInt = data.hostList.length
  listens : ∀ l ∈ data.listenList, l.iface.toInt < data.nHosts.toInt ∧ 0 ≤ l.mcasts.toInt ∧
    0 ≤ l.nmcasts.toInt ∧ l.mcasts.toInt + l.nmcasts.toInt ≤ data.nHosts.toInt
  aliases : ∀ a ∈ data.aliasList, 0 ≤ a.hosts.toInt ∧ 0 ≤ a.nhosts.toInt ∧
    a.hosts.toInt + a.nhosts.toInt ≤ data.nHosts.toInt
  entries : ∀ a ∈ data.acList, 0 ≤ a.entries.toInt ∧ 0 ≤ a.nentries.toInt ∧
    a.entries.toInt + a.nentries.toInt ≤ data.nHosts.toInt
  hosts : ∀ a ∈ data.acList, 0 ≤ a.hosts.toInt ∧ 0 ≤ a.nhosts.toInt ∧
    a.hosts.toInt + a.nhosts.toInt ≤ data.nHosts.toInt

/-- The tables hold what was sent, in the same order, and everything is stored in the room that
was announced. -/
structure Exactly (t : Tables) (data : AccData) : Prop where
  hosts : List.Forall₂ HostHolds t.hostList data.hostList
  listens : List.Forall₂ ListenHolds t.listenList data.listenList
  aliases : List.Forall₂ AliasHolds t.aliasList data.aliasList
  acls : List.Forall₂ AclHolds t.acList data.acList
  inTable : data.InTable
  filled : Filled data.strings 0 data.cptr
  room : data.cptr ≤ data.nChars.toInt

/-- The text of a host entry. -/
def HostEntry.text : HostEntry → Option CStr
  | .alias p => some p
  | .pattern p => some p
  | _ => none

/-- The tables are within the limits of the daemon. -/
structure Fits (heap : Heap) (t : Tables) : Prop where
  hosts : t.hostList.length < 2 ^ 15
  listens : t.listenList.length < 2 ^ 15
  aliases : t.aliasList.length < 2 ^ 15
  acls : t.acList.length < 2 ^ 15
  chars : t.nChars < 2 ^ 31
  memory : heap.malloc (32 * t.hostList.length + 6 * t.listenList.length +
    16 * t.aliasList.length + 10 * t.acList.length + t.nChars)
  texts : ∀ h ∈ t.hostList, ∀ p, h.text = some p → p.1.length + 1 < 0x10000
  names : ∀ a ∈ t.aliasList, a.name.1.length + 1 < 0x10000

end Kdm.Xaccess
