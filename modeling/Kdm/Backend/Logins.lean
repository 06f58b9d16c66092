import Kdm.Backend.State

/-!
# Who is logged in (`util.c`)

`listSessions` walks the displays and the utmp file; `anyUserLogins` asks it whether a user
other than `uid` has an X or TTY session.
-/

namespace Kdm

/-- The flags of `listSessions`. -/
structure ListFlags where
  lstRemote : Bool
  lstPassive : Bool
  lstTTY : Bool
  deriving DecidableEq, Repr

inductive Session where
  | x (d : Display)
  | tty (ut : UtEntry)
  deriving DecidableEq, Repr

/-- A display that `listSessions` emits. -/
def listsDisplay (flags : ListFlags) (di : Display) : Bool :=
  (flags.lstRemote || di.isLocal) &&
    (di.status == .remoteLogin ||
      if flags.lstPassive then di.status == .running else decide (0 ≤ di.userSess))

/-- `"tty"` and a digit. -/
def isConsoleLine (line : String) : Bool :=
  line.toList.take 3 == ['t', 't', 'y'] && (line.toList[3]?.map Char.isDigit).getD false

/-- A utmp entry that `listSessions` emits: a live user process that is neither an X login
nor on an X terminal. -/
def listsEntry (flags : ListFlags) (ut : UtEntry) : Bool :=
  ut.userProcess && ut.alive &&
    (if ut.host ≠ "" then flags.lstRemote else isConsoleLine ut.line) &&
    ut.line.toList.count ':' == 0 && ut.host.toList.count ':' != 1

def utEntries (s : State) : List UtEntry :=
  match s.env.utmp with
  | some (_, entries) => entries
  | none => []

/-- `listSessions`. -/
def listSessions (flags : ListFlags) (s : State) : List Session :=
  (s.displays.filter (listsDisplay flags)).map .x ++
    if flags.lstTTY then ((utEntries s).filter (listsEntry flags)).map .tty else []

/-- `noteXSession` and `noteTTYSession`: a session of somebody else than `uid`; every session
when `uid < 0`. -/
def Session.ofOther (uid : Int) : Session → Bool
  | .x di => di.status == .remoteLogin || di.userSess != uid
  | .tty ut => decide (uid < 0) || ut.uid != some uid

/-- `anyUserLogins`. -/
def anyUserLogins (uid : Int) (s : State) : Bool :=
  (listSessions ⟨true, false, true⟩ s).any (Session.ofOther uid)

/-- `wouldShutdown`. -/
def wouldShutdown (s : State) : Bool :=
  if s.sdRec.force = SHUT_FORCE then true
  else if s.sdRec.force = SHUT_FORCEMY then !anyUserLogins s.sdRec.uid s
  else !anyUserLogins (-1) s

end Kdm
