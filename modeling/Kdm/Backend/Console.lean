import Kdm.Backend.State

/-!
# Console mode (`dm.c`, `HAVE_VTS`)

In console mode the local displays are suspended (`textMode`) and one `utmps` record watches
the configured console lines.  `checkUtmp` polls utmp and wakes the displays when nobody
logged in for a while; `switchToTTY` enters the mode once no display is a zombie any more.
-/

namespace Kdm

def TIME_LOG : Int := 40
def TIME_RELOG : Int := 10

/-- `wakeDisplay`. -/
def wakeDisplay (i : Id) (s : State) : State :=
  s.withDisplay i fun d s =>
    if d.status = .textMode then
      s.setStatus i (if d.displayType.lifetime = .dReserve then .reserve else .notRunning)
    else s

/-- `wakeDisplays`. -/
def wakeDisplays (s : State) : State :=
  { forEachDisplay wakeDisplay s with utmpList := none }

/-- One utmp entry in the loop of `checkUtmp`: only the console lines count, an active entry
is never downgraded, and the latest activity wins. -/
def noteUtmpEntry (consoleTTYs : List String) (utp : Utmps) (ut : UtEntry) : Utmps :=
  if ut.line ∈ consoleTTYs then
    if ut.userProcess then
      { time := max utp.time ut.time, state := .active, hadSess := true }
    else if utp.state = .active then utp
    else { utp with time := max utp.time ut.time, state := .wait }
  else utp

/-- The polling decision of `checkUtmp` for an up-to-date record. -/
def pollUtmp (utp : Utmps) (s : State) : State :=
  if utp.state ≠ .active then
    let utp := if utp.state = .dead then { utp with time := 0 } else utp
    let ends := utp.time + if utp.hadSess then TIME_RELOG else TIME_LOG
    if ends ≤ s.now then wakeDisplays s
    else { s with utmpList := some utp, utmpTimeout := min ends s.utmpTimeout }
  else
    { s with utmpList := some utp, utmpTimeout := min (TIME_RELOG + s.now) s.utmpTimeout }

/-- `checkUtmp`; without a utmp file console mode ends. -/
def checkUtmp (s : State) : State :=
  match s.utmpList with
  | none => s
  | some utp =>
    match s.env.utmp with
    | none => wakeDisplays s
    | some (mtime, entries) =>
      if s.modtim ≠ mtime then
        pollUtmp (entries.foldl (noteUtmpEntry s.conf.consoleTTYs) { utp with state := .dead })
          { s with modtim := mtime }
      else pollUtmp utp s

/-- `utp->state` of a record from `malloc` is whatever the memory held. -/
def staleUtState (x : Int) : UtState :=
  if x = 0 then .dead else if x = 1 then .wait else .active

/-- `switchToTTY`. -/
def switchToTTY (s : State) : State :=
  let (ok, s) := s.malloc
  if ok then
    let (x, s) := s.answer
    checkUtmp { s with utmpList := some ⟨s.now, staleUtState x, false⟩ }
  else wakeDisplays s

/-- `checkTTYMode`. -/
def checkTTYMode (s : State) : State :=
  if s.displays.any fun d => d.status == .zombie then s else switchToTTY s

end Kdm
