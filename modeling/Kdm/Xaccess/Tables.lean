import Kdm.Xaccess.Words
import Kdm.Xdmcp.Access

/-!
# The Xaccess file in the config reader

`parseHost`, `checkHostlist` and `readAccessFile` (`kdm_config.c`).  All hosts of the file go to one
table, and every other entry says where its hosts are in it.  The name service is a parameter;
memory of the config reader does not run out.
-/

namespace Kdm.Xaccess

open Ipc
open Xdmcp (Octets ascii)

/-! ## Entries -/

/-- What `getaddrinfo` finds. -/
inductive Addrinfo where
  | inet (sin_addr : Octets 4)
  | inet6 (sin6_addr : Octets 16)

def Addrinfo.addr : Addrinfo → Bytes
  | .inet a => a.1
  | .inet6 a => a.1

inductive HostEntry where
  | alias (aliasPattern : CStr)
  | address (displayAddress : Addrinfo)
  | pattern (hostPattern : CStr)
  | broadcast

/-- `iface` is none for -1. -/
structure ListenEntry where
  iface : Option Nat
  mcasts : Nat
  nmcasts : Nat

structure AliasEntry where
  name : CStr
  hosts : Nat
  nhosts : Nat
  hasBad : Bool

structure AclEntry where
  entries : Nat
  nentries : Nat
  hosts : Nat
  nhosts : Nat
  flags : BitVec 32

def a_notAllowed : BitVec 32 := 1
def a_notBroadcast : BitVec 32 := 2
def a_useChooser : BitVec 32 := 2

/-- The lists and counters of `readAccessFile`. -/
structure Tables where
  hostList : List HostEntry
  listenList : List ListenEntry
  aliasList : List AliasEntry
  acList : List AclEntry
  nChars : Nat
  error : Bool

def Tables.empty : Tables := ⟨[], [], [], [], 0, false⟩

def Tables.nHosts (t : Tables) : Nat := t.hostList.length

/-- The hosts from number `fh` on. -/
def Tables.slice (t : Tables) (fh nh : Nat) : List HostEntry := (t.hostList.drop fh).take nh

/-! ## Hosts -/

/-- The name service, and the multicast group that the headers may define. -/
structure Env where
  getaddrinfo : CStr → Option Addrinfo
  XDM_DEFAULT_MCAST_ADDR6 : Option CStr

variable (env : Env)

def PARSE_ALL : BitVec 32 := 0
def PARSE_NO_BCAST : BitVec 32 := 1
def PARSE_NO_PAT : BitVec 32 := 2
def PARSE_NO_ALIAS : BitVec 32 := 4

/-- A string without its first character. -/
def CStr.next (s : CStr) : CStr := ⟨s.1.tail, fun h => s.2 (List.mem_of_mem_tail h)⟩

def CStr.is (s : CStr) (text : String) : Bool := s.1 == ascii text

def hasGlobCharacters (s : CStr) : Bool := s.1.any fun c => c == 63 || c == 42

/-- The entry for a word, and the characters that are counted for it.  `len` is the length of the
word before its prefix was cut off. -/
def parseHost (parse : BitVec 32) (hostOrAlias : CStr) (len : Nat) : Option (HostEntry × Nat) :=
  if parse &&& PARSE_NO_BCAST = 0 ∧ CStr.is hostOrAlias "BROADCAST" then some (.broadcast, 0)
  else if parse &&& PARSE_NO_ALIAS = 0 ∧ hostOrAlias.1.head? = some 37 then
    some (.alias (CStr.next hostOrAlias), len)
  else if parse &&& PARSE_NO_PAT = 0 ∧ hasGlobCharacters hostOrAlias then
    some (.pattern hostOrAlias, len + 1)
  else (env.getaddrinfo hostOrAlias).map fun ai => (.address ai, ai.addr.length)

/-- A host that cannot be resolved is left out. -/
def Tables.addHost (t : Tables) (parse : BitVec 32) (hostOrAlias : CStr) (len : Nat) :
    Tables × Bool :=
  match parseHost env parse hostOrAlias len with
  | some (h, n) => ({ t with hostList := t.hostList ++ [h], nChars := t.nChars + n }, true)
  | none => (t, false)

/-- One word of a list of hosts; counts those that were added, and notes that one was not. -/
def Tables.addWord (parse : BitVec 32) (st : Tables × Nat × Bool) (w : CStr) : Tables × Nat × Bool :=
  match st.1.addHost env parse w w.1.length with
  | (t, true) => (t, st.2.1 + 1, st.2.2)
  | (t, false) => (t, st.2.1, true)

def Tables.addHosts (t : Tables) (parse : BitVec 32) (words : List CStr) : Tables × Nat × Bool :=
  words.foldl (Tables.addWord env parse) (t, 0, false)

/-! ## Lines -/

def Tables.addAlias (t : Tables) (displayOrAlias : CStr) (words : List CStr) : Tables :=
  let r := { t with nChars := t.nChars + displayOrAlias.1.length }.addHosts env PARSE_NO_BCAST words
  { r.1 with
    aliasList := r.1.aliasList ++ [⟨CStr.next displayOrAlias, t.nHosts, r.2.1, r.2.2⟩] }

def PARSE_LISTEN : BitVec 32 := PARSE_NO_BCAST ||| PARSE_NO_PAT ||| PARSE_NO_ALIAS

/-- The interface of a LISTEN line. -/
def Tables.addIface (t : Tables) (iface : Option CStr) : Tables × Option Nat :=
  match iface with
  | none => (t, none)
  | some w =>
    if CStr.is w "*" then (t, none)
    else match t.addHost env PARSE_LISTEN w w.1.length with
      | (t', true) => (t', some t.nHosts)
      | (t', false) => (t', none)

def Tables.addListen (t : Tables) (words : List CStr) : Tables :=
  let i := t.addIface env words.head?
  let r := i.1.addHosts env PARSE_LISTEN words.tail
  { r.1 with listenList := r.1.listenList ++ [⟨i.2, i.1.nHosts, r.2.1⟩] }

/-- The flags before the display, and what is behind them. -/
def displayFlags (display : CStr) : BitVec 32 × CStr :=
  if display.1.head? = some 33 then (a_notAllowed, CStr.next display)
  else if display.1.head? = some 61 then (0, CStr.next display)
  else (0, display)

/-- The flag that a word in the list of hosts stands for. -/
def flagOf (w : CStr) : Option (BitVec 32) :=
  if CStr.is w "CHOOSER" then some a_useChooser
  else if CStr.is w "NOBROADCAST" then some a_notBroadcast
  else none

/-- An entry for a display that cannot be resolved is dropped, but its hosts stay in the table. -/
def Tables.addAcl (t : Tables) (displayOrAlias : CStr) (words : List CStr) : Tables :=
  let (flags, display) := displayFlags displayOrAlias
  let e := t.addHost env PARSE_NO_BCAST display displayOrAlias.1.length
  let t1 := if e.2 = false ∧ flags &&& a_notAllowed ≠ 0 then { e.1 with error := true } else e.1
  let r := t1.addHosts env PARSE_NO_PAT (words.filter fun w => (flagOf w).isNone)
  let flags := words.foldl (fun flags w => flags ||| (flagOf w).getD 0) flags
  if e.2 then
    { r.1 with acList := r.1.acList ++ [⟨t.nHosts, 1, t1.nHosts, r.2.1, flags⟩] }
  else r.1

def Tables.addLine (t : Tables) (line : CStr × List CStr) : Tables :=
  if line.1.1.head? = some 37 then t.addAlias env line.1 line.2
  else if CStr.is line.1 "LISTEN" then t.addListen env line.2
  else t.addAcl env line.1 line.2

/-- The multicast group, if the headers define one. -/
def Tables.defaultHost (t : Tables) : Tables × Bool :=
  match env.XDM_DEFAULT_MCAST_ADDR6 with
  | some mcast => t.addHost env PARSE_ALL mcast mcast.1.length
  | none => (t, false)

/-- Without a LISTEN line the daemon listens on all interfaces. -/
def Tables.listenDefault (t : Tables) : Tables :=
  if t.listenList = [] then
    let r := t.defaultHost env
    { r.1 with listenList := [⟨none, t.nHosts, if r.2 then 1 else 0⟩] }
  else t

/-! ## Checks -/

/-- Whether a list of hosts is refused; `depth` more aliases may be followed.  `checkNot` is the
flag CHECK_NOT; CHECK_NO_PAT only makes a warning. -/
def checkHostlist (t : Tables) (checkNot : Bool) : Nat → List HostEntry → Bool
  | 0, hosts => hosts.any fun h => match h with
    | .alias _ => true
    | _ => false
  | depth + 1, hosts => hosts.any fun h => match h with
    | .alias p =>
      let matching := t.aliasList.filter fun a => Xdmcp.patternMatch a.name.1 p.1
      (matching.any fun a =>
        (checkNot && a.hasBad) ||
          checkHostlist t checkNot depth (t.slice a.hosts a.nhosts)) ||
        (matching.isEmpty && checkNot)
    | _ => false

def MAX_DEPTH : Nat := 32

def Tables.rejected (t : Tables) : Bool :=
  t.error || t.acList.any fun acl =>
    checkHostlist t (acl.flags &&& a_notAllowed != 0) MAX_DEPTH (t.slice acl.entries acl.nentries) ||
      checkHostlist t false MAX_DEPTH (t.slice acl.hosts acl.nhosts)

/-- The tables of the file, whatever the checks say. -/
def readTables (file : Bytes) : Tables :=
  ((readLines file).foldl (Tables.addLine env) .empty).listenDefault env

/-- The tables that are sent; the file may not be readable. -/
def readAccessFile (file : Option Bytes) : Tables :=
  match file with
  | none => .empty
  | some file => if (readTables env file).rejected then .empty else readTables env file

end Kdm.Xaccess
