import Kdm.Xdmcp.Address

/-!
# The Xauthority file of the user

`setUserAuthorization` and `removeUserAuthorization` (`auth.c`) for the Linux build
(`HAVE_GETIFADDRS`, `IPv6`, `XDMCP`, without `NEED_UTSNAME`).  A file is the sequence of its
entries, which is what `XauReadAuth` returns and `XauWriteAuth` appends to.  The entries are
written into a new file beside the old one, which takes its place when everything went well.

What the system answers is in `Io`; a file that exists can be read.  The address list starts empty
in a process that has not written a file before.
-/

namespace Kdm.Xauthority

open Xdmcp

/-- `Xauth`. -/
structure Xauth where
  family : Nat
  address : Bytes
  number : Bytes
  name : Bytes
  data : Bytes
  deriving DecidableEq, Repr

/-- `struct addrList`: what an entry is for. -/
structure Key where
  family : Nat
  address : Bytes
  number : Bytes
  deriving DecidableEq, Repr

def Xauth.key (auth : Xauth) : Key := ⟨auth.family, auth.address, auth.number⟩

/-- A socket address: an internet address, one of `AF_UNIX` or `AF_UNSPEC`, or any other. -/
inductive Saddr where
  | inet (a : Sockaddr)
  | here
  | other
  deriving DecidableEq

/-- `convertAddr`. -/
def Saddr.convert : Saddr → Int × Bytes
  | .inet a => ((convertAddr a).1.toNat, (convertAddr a).2)
  | .here => (FamilyLocal.toNat, [])
  | .other => (-1, [])

/-- The host: its name, and the addresses of its interfaces, unless they cannot be listed. -/
structure Host where
  displayname : Bytes
  ifap : Option (List (Option Saddr))

/-- What `struct display` says about authorizations. -/
structure Display where
  name : Bytes
  local_ : Bool
  /-- `none` for no data, or less than two bytes -/
  peer : Option Saddr
  authorizations : Option (List Xauth)
  forceUserAuthDir : Bool
  userAuthDir : Bytes

/-- A file opened for writing: which calls of `XauWriteAuth` succeed, and `fclose`. -/
structure Stream where
  write : Nat → Bool
  close : Bool

/-- What the system answers. -/
structure Io where
  malloc : Nat → Bool
  home : Option Bytes
  lock : Bool
  creat : Option Stream
  rename : Bool
  mkTempFile : Option (Bytes × Stream)

/-- The new file and the address list while entries are written. -/
structure Writer where
  file : List Xauth
  addrs : List Key
  ok : Bool
  writes : Nat
  deriving DecidableEq, Repr

def Writer.start : Writer := ⟨[], [], true, 0⟩

def checkEntry (auth : Xauth) (w : Writer) : Bool := auth.key ∈ w.addrs

def saveEntry (malloc : Nat → Bool) (auth : Xauth) (w : Writer) : Writer :=
  if malloc (14 + auth.address.length + auth.number.length) then
    { w with addrs := auth.key :: w.addrs }
  else w

/-- `writeAuth`; nothing is written where there is no `ok` to be set. -/
def writeAuth (file : Option Stream) (auth : Xauth) (w : Writer) : Writer :=
  match file with
  | none => w
  | some f =>
    if f.write w.writes then { w with file := w.file ++ [auth], writes := w.writes + 1 }
    else { w with ok := false, writes := w.writes + 1 }

/-- The entry for an address; the family is an `unsigned short`. -/
def Xauth.at (auth : Xauth) (family : Int) (addr : Bytes) : Xauth :=
  { auth with family := (family % 65536).toNat, address := addr }

def writeAddr (malloc : Nat → Bool) (family : Int) (addr : Bytes) (file : Option Stream)
    (auth : Xauth) (w : Writer) : Writer :=
  let auth := auth.at family addr
  let w := writeAuth file auth w
  if checkEntry auth w then w else saveEntry malloc auth w

def defineLocal (malloc : Nat → Bool) (host : Host) (file : Option Stream) (auth : Xauth)
    (w : Writer) : Writer :=
  writeAddr malloc FamilyLocal.toNat host.displayname file auth w

/-- `IN6_IS_ADDR_LOOPBACK` -/
def loopback6 : Bytes := [0, 0, 0, 0, 0, 0, 0, 0, 0, 0, 0, 0, 0, 0, 0, 1]

/-- The addresses that get no entry. -/
def skipped (auth : Xauth) (family : Int) (addr : Bytes) : Bool :=
  family = -1 ∨ family = FamilyLocal.toNat ∨
  family = FamilyInternet.toNat ∧ addr = [127, 0, 0, 1] ∨
  family = FamilyInternet6.toNat ∧ (addr = loopback6 ∨ auth.name = ascii "XDM-AUTHORIZATION-1")

def defineSelf (malloc : Nat → Bool) (host : Host) (file : Option Stream) (auth : Xauth)
    (w : Writer) : Writer :=
  match host.ifap with
  | none => w
  | some ifap =>
    ifap.foldl (fun w ifr =>
      match ifr with
      | none => w
      | some a =>
        let (family, addr) := a.convert
        if skipped auth family addr then w else writeAddr malloc family addr file auth w) w

/-- The text behind the last colon, up to the first point. -/
def displayNumber (name : Bytes) : Option Bytes :=
  if 58 ∈ name then some ((name.reverse.takeWhile (· ≠ 58)).reverse.takeWhile (· ≠ 46)) else none

def setAuthNumber (malloc : Nat → Bool) (name : Bytes) (auth : Xauth) : Xauth :=
  match displayNumber name with
  | none => auth
  | some number => { auth with number := if malloc (number.length + 1) then number else [] }

def writeLocalAuth (malloc : Nat → Bool) (host : Host) (file : Option Stream) (auth : Xauth)
    (name : Bytes) (w : Writer) : Writer :=
  let auth := setAuthNumber malloc name auth
  defineLocal malloc host file auth (defineSelf malloc host file auth w)

/-- `convertAuthAddr`: the local host is not a network address. -/
def convertAuthAddr (a : Saddr) : Int × Bytes :=
  let (family, addr) := a.convert
  if family = FamilyInternet.toNat ∧ addr = [127, 0, 0, 1] then (FamilyLocal.toNat, addr)
  else (family, addr)

def writeRemoteAuth (malloc : Nat → Bool) (host : Host) (file : Option Stream) (auth : Xauth)
    (peer : Option Saddr) (name : Bytes) (w : Writer) : Writer :=
  match peer with
  | none => w
  | some a =>
    let auth := setAuthNumber malloc name auth
    let (family, addr) := convertAuthAddr a
    if family ≠ FamilyLocal.toNat then writeAddr malloc family addr file auth w
    else writeLocalAuth malloc host file auth name w

/-- The entries of one authorization. -/
def writeDisplayAuth (malloc : Nat → Bool) (host : Host) (d : Display) (file : Option Stream)
    (auth : Xauth) (w : Writer) : Writer :=
  if d.local_ then writeLocalAuth malloc host file auth d.name w
  else writeRemoteAuth malloc host file auth d.peer d.name w

def isMagicCookie (auth : Xauth) : Bool := auth.name = ascii "MIT-MAGIC-COOKIE-1"

/-- The cache information of Kerberos is not written. -/
def withoutCache (auth : Xauth) : Xauth :=
  if auth.name = ascii "MIT-KERBEROS-5" then { auth with data := [] } else auth

/-- `endUserAuth`: the old entries are copied that no new one is for. -/
def endUserAuth (old : Option (List Xauth)) (new : Stream) (w : Writer) : Bool × List Xauth :=
  let w := (old.getD []).foldl
    (fun w entry => if checkEntry entry w then w else writeAuth (some new) entry w) w
  (w.ok && new.close, w.file)

def NBSIZE : Nat := 1024

/-- `startUserAuth`: the name of the file, its entries and the new file beside it. -/
def startUserAuth (io : Io) : Option (Bytes × Stream) :=
  match io.home with
  | some home =>
    if home.length < NBSIZE - 12 ∧ io.lock then
      io.creat.map fun new => (home ++ ascii "/.Xauthority", new)
    else none
  | none => none

/-- What is left behind: the file of the user, whether it was replaced, and the file that
`XAUTHORITY` names. -/
structure Result where
  file : Option (List Xauth)
  moved : Bool
  xauthority : Option (Bytes × List Xauth)
  deriving DecidableEq, Repr

/-- The two loops of `setUserAuthorization`: the first magic cookie, then all others. -/
def writeAuths (malloc : Nat → Bool) (host : Host) (d : Display) (new : Stream)
    (auths : List Xauth) (w : Writer) : Writer :=
  let w := (auths.find? isMagicCookie).elim w fun auth =>
    writeDisplayAuth malloc host d (some new) auth w
  (auths.eraseP isMagicCookie).foldl
    (fun w auth => writeDisplayAuth malloc host d (some new) (withoutCache auth) w) w

/-- `setUserAuthorization` from the label `fallback`. -/
def fallback (io : Io) (host : Host) (d : Display) (auths : List Xauth)
    (file : Option (List Xauth)) : Result :=
  if NBSIZE - 13 ≤ d.userAuthDir.length then ⟨file, false, none⟩
  else
    match io.mkTempFile with
    | none => ⟨file, false, none⟩
    | some (name, new) =>
      let (ok, entries) := endUserAuth none new (writeAuths io.malloc host d new auths .start)
      ⟨file, false, if ok then some (name, entries) else none⟩

/-- `setUserAuthorization`, where `~/.Xauthority` has the entries `file`. -/
def setUserAuthorization (io : Io) (host : Host) (d : Display) (file : Option (List Xauth)) :
    Result :=
  match d.authorizations with
  | none => ⟨file, false, none⟩
  | some auths =>
    if d.forceUserAuthDir then fallback io host d auths file
    else
      match startUserAuth io with
      | none => fallback io host d auths file
      | some (name, new) =>
        let (ok, entries) := endUserAuth file new (writeAuths io.malloc host d new auths .start)
        if ok then
          if io.rename then ⟨some entries, true, none⟩
          else ⟨file, false, some (name ++ ascii "-n", entries)⟩
        else fallback io host d auths file

/-- `removeUserAuthorization`. -/
def removeUserAuthorization (io : Io) (host : Host) (d : Display) (file : Option (List Xauth)) :
    Result :=
  match d.authorizations with
  | none => ⟨file, false, none⟩
  | some auths =>
    match startUserAuth io with
    | none => ⟨file, false, none⟩
    | some (_, new) =>
      let w := auths.foldl (fun w auth => writeDisplayAuth io.malloc host d none auth w) .start
      let (ok, entries) := endUserAuth file new w
      if ok ∧ io.rename then ⟨some entries, true, none⟩ else ⟨file, false, none⟩

end Kdm.Xauthority
