import Kdm.Backend.Server

/-!
# Control sockets, pipes and session starts (`ctrl.c`, `process.c`, `dm.c`)

`startDisplayP2` opens the display's control socket, makes the two socket pairs to the session
process and its greeter and forks the session.  Everything a descriptor goes through on the
daemon's side is here: open, register, unregister, close.
-/

namespace Kdm

/-- The two pipes of a display: to its session process and to the greeter. -/
inductive Pipe where
  | pipe
  | gpipe
  deriving DecidableEq, Repr

def Display.pipeFd (d : Display) : Pipe → Int
  | .pipe => d.pipe
  | .gpipe => d.gpipe

def Display.setPipeFd (d : Display) (fd : Int) : Pipe → Display
  | .pipe => { d with pipe := fd }
  | .gpipe => { d with gpipe := fd }

/-! ## Control sockets -/

/-- `CtrlRec *cr = d ? &d->ctrl : &ctrl`. -/
def ctrlOf (s : State) : Option Id → Option CtrlRec
  | none => some s.ctrl
  | some i => (s.find i).map Display.ctrl

def setCtrl (x : Option Id) (f : CtrlRec → CtrlRec) (s : State) : State :=
  match x with
  | none => { s with ctrl := f s.ctrl }
  | some i => s.modify i fun d => { d with ctrl := f d.ctrl }

/-- The path of a control socket. -/
def ctrlPath (fifoDir : List Char) (dname : Option String) : List Char :=
  fifoDir ++ (match dname with
    | some dname => "/dmctl-".toList ++ dname.toList
    | none => "/dmctl".toList) ++ "/socket".toList

/-- `openCtrl`.  Creating the directory, its symbolic link and the bound socket succeed or
fail together, as one answer of the kernel. -/
def openCtrl (x : Option Id) (s : State) : State :=
  if s.conf.fifoDir = "" then s
  else
    match ctrlOf s x with
    | none => s
    | some cr =>
      if cr.fd < 0 then
        let (fd, s) := s.openFd (.ctrl x)
        if fd < 0 then s
        else
          let dname := (x.bind s.find).map Display.name
          let group := if x.isSome then 0 else s.conf.fifoGroup
          (setCtrl x (fun cr => { cr with
            fd := fd, path := some (ctrlPath s.conf.fifoDir.toList dname), group := group })
              s).registerInput fd
      else s

/-- `nukeSock` on the descriptor of a connection. -/
def nukeFd (fd : Int) (s : State) : State := (s.unregisterInput fd).close fd

/-- `closeCtrl`: the socket, then its connections. -/
def closeCtrl (x : Option Id) (s : State) : State :=
  match ctrlOf s x with
  | none => s
  | some cr =>
    if 0 ≤ cr.fd then
      let s := (s.unregisterInput cr.fd).close cr.fd
      let s := setCtrl x (fun cr => { cr with fd := -1, path := none }) s
      let s := cr.css.foldl (fun s fd => nukeFd fd s) s
      setCtrl x (fun cr => { cr with css := [] }) s
    else s

/-- `acceptSock`. -/
def acceptSock (x : Option Id) (s : State) : State :=
  let (fd, s) := s.openFd (.conn x)
  if fd < 0 then s
  else
    let (ok, s) := s.malloc
    if ok then (setCtrl x (fun cr => { cr with css := fd :: cr.css }) s).registerInput fd
    else s.close fd

/-- `handleCtrl` dropping a connection: unlink the record and `nukeSock`. -/
def dropSock (x : Option Id) (fd : Int) (s : State) : State :=
  nukeFd fd (setCtrl x (fun cr => { cr with css := cr.css.filter (· ≠ fd) }) s)

/-! ## Pipes -/

/-- `gClosen`: close a pipe that is open. -/
def gClosen (w : Pipe) (i : Id) (s : State) : State :=
  s.withDisplay i fun d s =>
    if d.pipeFd w = -1 then s
    else (s.close (d.pipeFd w)).modify i fun d => d.setPipeFd (-1) w

/-- `unregisterInput(d->pipe.fd.r)`. -/
def unregisterPipe (w : Pipe) (i : Id) (s : State) : State :=
  s.withDisplay i fun d s => s.unregisterInput (d.pipeFd w)

/-- `gFork` for a session: two socket pairs and the process.  Returns the pid, `-1` on
failure; `fork` stores its result in `d->pid` either way. -/
def gFork (i : Id) (s : State) : Int × State :=
  let (p, s) := s.openFd (.pipe i)
  if p = -1 then (-1, s)
  else
    let (g, s) := s.openFd (.gpipe i)
    if g = -1 then (-1, s.close p)
    else
      let (pid, s) := s.fork
      let s := s.setPid i pid
      if pid = -1 then (-1, (s.close p).close g)
      else (pid, s.modify i fun d => { d with pipe := p, gpipe := g })

/-! ## Starting a display -/

/-- The end of `startDisplayP2` once the session process runs. -/
def sessionForked (i : Id) (s : State) : State :=
  s.withDisplay i fun d s =>
    let s := (s.registerInput d.pipe).registerInput d.gpipe
    let s := s.modifyHist d.name fun he => { he with lock := false, rLogin := 0, goodExit := false }
    s.modify i fun d => { d with sdRec := { d.sdRec with how := 0 }, lastStart := s.now }

/-- `startDisplayP2` in the master process. -/
def startDisplayP2 (i : Id) (s : State) : State :=
  s.withDisplay i fun d s =>
    let s := s.log (.startDisplayP2 i d.status)
    let s := openCtrl (some i) s
    let (pid, s) := gFork i s
    if pid = -1 then (closeCtrl (some i) s).setStatus i .notRunning else sessionForked i s

/-- `startServerSuccess`. -/
def startServerSuccess (s : State) : State :=
  match s.startingServer with
  | none => s
  | some i => startDisplayP2 i { s.setServerStatus i .ignore with serverTimeout := TO_INF }

/-- `startDisplay`. -/
def startDisplay (i : Id) (s : State) : State :=
  if s.stopping then stopDisplay i s
  else
    s.withDisplay i fun d s =>
      if d.serverVT < 0 then s
      else
        let s := s.setStatus i .running
        if d.isLocal ∧ d.serverPid = -1 then s.setServerStatus i .awaiting
        else startDisplayP2 i s

/-- `kickDisplay`. -/
def kickDisplay (i : Id) (s : State) : State :=
  let s := s.withDisplay i fun d s => if d.status = .notRunning then startDisplay i s else s
  s.withDisplay i fun d s =>
    if d.serverStatus = .awaiting ∧ s.startingServer = none then startServer i s else s

/-! ## Virtual terminals -/

/-- The inner loop of `allocateVT` over the displays, for the terminal `tvt`. -/
inductive VTUse where
  | taken
  | follow (cd : Id)
  | free

def vtUse (tvt : Int) : List Display → VTUse
  | [] => .free
  | cd :: ds =>
    if cd.conf.reqSrvVT = tvt ∧ (cd.status ≠ .zombie ∨ cd.zstatus ≠ .remove) then .taken
    else if cd.serverVT = tvt then
      if cd.status ≠ .zombie ∨ cd.zstatus = .remote then .taken
      else if cd.follower = none then .follow cd.id
      else vtUse tvt ds
    else vtUse tvt ds

/-- The terminals `allocateVT` tries, with `volun` ("only if nobody else uses it"): the
configured ones, then those above the last configured one. -/
def vtCandidates (serverVTs : List Int) : List (Int × Bool) :=
  let conf := serverVTs.map fun v => (if v < 0 then -v else v, decide (v < 0))
  let last := (conf.getLast?.map Prod.fst).getD 0
  conf.filter (fun c => c.1 ≠ 0 ∧ c.1 < 16) ++
    ((List.range 16).map Int.ofNat).filterMap fun t => if last < t then some (t, true) else none

/-- Try the candidates in order. -/
def pickVT (i : Id) (s : State) : List (Int × Bool) → State
  | [] => s
  | (tvt, volun) :: rest =>
    match vtUse tvt s.displays with
    | .taken => pickVT i s rest
    | .follow cd =>
      (s.modify i fun d => { d with serverVT := -1 }).modify cd fun d => { d with follower := some i }
    | .free =>
      if volun ∧ tvt ∈ s.env.busyVTs then pickVT i s rest
      else s.modify i fun d => { d with serverVT := tvt }

/-- `allocateVT`. -/
def allocateVT (i : Id) (s : State) : State :=
  s.withDisplay i fun d s =>
    if d.isLocal ∧ d.status = .notRunning ∧ d.serverVT = 0 ∧ 0 ≤ d.conf.reqSrvVT then
      if d.conf.reqSrvVT ≠ 0 ∧ d.conf.reqSrvVT < 16 then
        s.modify i fun d => { d with serverVT := d.conf.reqSrvVT }
      else pickVT i s (vtCandidates s.conf.serverVTs)
    else s

end Kdm
