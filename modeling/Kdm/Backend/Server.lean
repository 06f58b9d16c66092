import Kdm.Backend.Console

/-!
# Stopping displays and starting X servers (`dm.c`, `server.c`)

One X server start is under way at a time: `startingServer` holds the display, its
`serverStatus` the progress and `serverTimeout` the time of the next step.  `rStopDisplay`
takes a display out of service, at once or (as a zombie) when its processes are gone.
-/

namespace Kdm

/-- `abortStartServer`. -/
def abortStartServer (i : Id) (s : State) : State :=
  if s.startingServer = some i then
    let s := s.withDisplay i fun d s =>
      if d.serverStatus ≠ .ignore then
        { s.setServerStatus i .ignore with serverTimeout := TO_INF }
      else s
    { s with startingServer := none }
  else s

/-- `startRemoteLogin`. -/
def startRemoteLogin (i : Id) (s : State) : State :=
  let (pid, s) := s.fork
  let s := s.setServerPid i pid
  if pid = -1 then s.setStatus i .notRunning else s.setStatus i .remoteLogin

/-- The part of `rStopDisplay` after `abortStartServer`. -/
def stopTo (i : Id) (endState : EndState) (s : State) : State :=
  s.withDisplay i fun d s =>
    if d.serverPid ≠ -1 ∨ d.pid ≠ -1 then
      s.modify i fun d => { d with status := .zombie, zstatus := endState.mask }
    else
      match endState with
      | .textMode false => checkTTYMode (s.setStatus i .textMode)
      | .textMode true => s.setStatus i .textMode
      | .reserve => (s.setStatus i .reserve).modifyHist d.name fun he => { he with lastExit := 0 }
      | .remote => startRemoteLogin i s
      | .restart | .remove => removeDisplay i s

/-- `rStopDisplay`: from running to zombie, text mode, reserve or deleted. -/
def rStopDisplay (i : Id) (endState : EndState) (s : State) : State :=
  stopTo i endState (abortStartServer i s)

/-- `stopDisplay`. -/
def stopDisplay (i : Id) (s : State) : State := rStopDisplay i .remove s

/-! ## Server starts -/

/-- `startServerFailed`: pause before a retry, or give the display up. -/
def startServerFailed (s : State) : State :=
  match s.startingServer with
  | none => s.crash .startServerFailed
  | some i =>
    s.withDisplay i fun d s =>
      if d.conf.serverAttempts = 0 ∨ d.startTries < d.conf.serverAttempts then
        { s.setServerStatus i .pausing with serverTimeout := d.conf.openDelay + s.now }
      else
        stopDisplay i
          { s.setServerStatus i .ignore with serverTimeout := TO_INF, startingServer := none }

/-- `startServerOnce`. -/
def startServerOnce (s : State) : State :=
  match s.startingServer with
  | none => s
  | some i =>
    s.withDisplay i fun d s =>
      let s := s.modify i fun d => { d with startTries := d.startTries + 1, serverStatus := .starting }
      let (pid, s) := s.fork
      let s := s.setServerPid i pid
      if pid = -1 then startServerFailed s
      else { s with serverTimeout := d.conf.serverTimeout + s.now }

/-- `startServer`. -/
def startServer (i : Id) (s : State) : State :=
  s.withDisplay i fun d s =>
    let s := s.log (.startServer i d.status)
    startServerOnce
      (({ s with startingServer := some i }).modify i fun d => { d with startTries := 0 })

/-- `startServerTimeout`; the caller has reset `serverTimeout`. -/
def startServerTimeout (s : State) : State :=
  match s.startingServer with
  | none => s.crash .startServerTimeout
  | some i =>
    s.withDisplay i fun d s =>
      match d.serverStatus with
      | .ignore | .awaiting => s
      | .starting =>
        { s.setServerStatus i .terminated with serverTimeout := d.conf.serverTimeout + s.now }
      | .terminated => { s.setServerStatus i .killed with serverTimeout := 10 + s.now }
      | .killed => startServerFailed s
      | .pausing => startServerOnce s

end Kdm
