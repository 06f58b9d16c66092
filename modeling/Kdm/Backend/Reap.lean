import Kdm.Backend.Config

/-!
# Session and server exits (`dm.c`)

`reapChildren` takes the exit statuses of session processes and X servers from `waitpid` one
at a time (`reapChild`).  A session's exit status selects the arguments of `exitDisplay`,
which restarts the display, restarts its server first (`phoenix`) or stops it.
-/

namespace Kdm

/-- `sessionDone`. -/
def sessionDone (i : Id) (s : State) : State :=
  s.modify i fun d => { d with userSess := -1, userName := none, sessName := none }

/-- The retry limits of `exitDisplay`: `true` when the display is to be given up. -/
def exhausted (d : Display) (now : Int) : Bool :=
  if d.isLocal then now - d.lastStart < 120 else d.conf.startAttempts < d.startTries + 1

/-- The last part of `exitDisplay`: start the display again, a new server first if need be. -/
def restartDisplay (i : Id) (serverCmd : ServerCmd) (s : State) : State :=
  s.withDisplay i fun d s =>
    if d.serverPid ≠ -1 ∧ (serverCmd ≠ .keep ∨ d.conf.terminateServer) then s.setStatus i .phoenix
    else s.setStatus i .notRunning

/-- `exitDisplay`. -/
def exitDisplay (i : Id) (endState : EndState) (serverCmd : ServerCmd) (goodExit : Bool)
    (s : State) : State :=
  s.withDisplay i fun d s =>
    let serverCmd := if d.status = .raiser then .keep else serverCmd
    let goodExit := if d.status = .raiser then true else goodExit
    let s := sessionDone i s
    let s := s.modifyHist d.name fun he => { he with lastExit := s.now, goodExit := goodExit }
    let endState := if s.sdRec.how ≠ 0 ∧ s.sdRec.start = TO_INF then .remove else endState
    if d.status = .zombie then rStopDisplay i d.zstatus s
    else if s.stopping then stopDisplay i s
    else if endState ≠ .restart ∨ d.displayType.lifetime = .dTransient then rStopDisplay i endState s
    else if serverCmd = .retry then
      if exhausted d s.now then
        stopDisplay i (if d.isLocal then s else s.modify i fun d => { d with startTries := d.startTries + 1 })
      else
        restartDisplay i serverCmd
          (if d.isLocal then s else s.modify i fun d => { d with startTries := d.startTries + 1 })
    else restartDisplay i serverCmd (s.modify i fun d => { d with startTries := 0 })

/-- The arguments `reapChildren` gives `exitDisplay` for an exit status. -/
def exitArgs (d : Display) (wc : Nat) : EndState × ServerCmd × Bool :=
  if wc = EX_REMOTE then (.remote, .keep, false)
  else if wc = EX_NORMAL then
    if d.displayType.lifetime = .dReserve then (.reserve, .keep, false) else (.restart, .keep, true)
  else if wc = EX_RESERVE then (.reserve, .keep, false)
  else if wc = EX_OPENFAILED_DPY then (.restart, .retry, false)
  else if wc = wcCompose SIGTERM 0 0 then (.restart, .retry, false)
  else if wc = EX_AL_RESERVER_DPY then (.restart, .restart, false)
  else if wc = EX_RESERVER_DPY then (.restart, .restart, true)
  else (.remove, .keep, false)

/-- The daemon's ends of a dead session: both pipes and the control socket. -/
def closeSession (i : Id) (s : State) : State :=
  let s := gClosen .pipe i (unregisterPipe .pipe i s)
  let s := gClosen .gpipe i (unregisterPipe .gpipe i s)
  closeCtrl (some i) s

/-- `reapChildren` for a session process. -/
def reapSession (i : Id) (status : WaitStatus) (s : State) : State :=
  let s := closeSession i (s.setPid i (-1))
  s.withDisplay i fun d s =>
    let (endState, serverCmd, goodExit) := exitArgs d (wcFromWait status)
    exitDisplay i endState serverCmd goodExit s

/-- A zombie's server is gone: its terminal goes to the follower, if there is one. -/
def releaseVT (i : Id) (s : State) : State :=
  s.withDisplay i fun d s =>
    if d.serverVT ≠ 0 ∧ d.zstatus ≠ .remote then
      let s :=
        match d.follower with
        | some f =>
          (s.modify f fun fd => { fd with serverVT := d.serverVT }).modify i
            fun d => { d with follower := none }
        | none => s
      s.modify i fun d => { d with serverVT := 0 }
    else s

/-- `reapChildren` for an X server. -/
def reapServer (i : Id) (s : State) : State :=
  let s := s.setServerPid i (-1)
  s.withDisplay i fun d s =>
    match d.status with
    | .zombie => rStopDisplay i d.zstatus (releaseVT i s)
    | .phoenix => s.setStatus i .notRunning
    | .remoteLogin =>
      s.setStatus i (if d.displayType.lifetime = .dReserve then .reserve else .notRunning)
    | .raiser => s
    | .running =>
      if s.startingServer = some i ∧ d.serverStatus ≠ .ignore then startServerFailed s else s
    | .notRunning | .textMode | .reserve => s.log (.passiveServerExit i d.status)

/-- One turn of the `waitpid` loop of `reapChildren`. -/
def reapChild (pid : Int) (status : WaitStatus) (s : State) : State :=
  match findDisplayByPid s pid with
  | some d => reapSession d.id status s
  | none =>
    match findDisplayByServerPid s pid with
    | some d => reapServer d.id s
    | none => s

end Kdm
