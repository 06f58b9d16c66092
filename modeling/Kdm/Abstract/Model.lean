import Mathlib.Data.List.Perm.Basic
import Mathlib.Data.Set.Insert
import Mathlib.Tactic.Common
import Kdm.Lib.Runs
import Kdm.Backend.State

/-!
# Abstract model of the display manager

What the daemon is for, without its control flow: displays with their processes, one X server
start at a time, descriptors with an owner, a shutdown record.  `Act` names the elementary
things that can happen, `Step` says when each may and what it does.  The code of the daemon
refines this model: every step of the main loop is a `Path` of actions.

An action that ends a process takes its display to the next status at once (`Reap`), so that
no intermediate state shows a display whose last process is gone but not yet accounted for.
-/

namespace Kdm

/-- What the model knows of a display. -/
structure View where
  isLocal : Bool
  status : DisplayStatus
  zstatus : EndState
  pid : Int
  serverPid : Int
  serverStatus : ServerStatus
  userSess : Int
  pipe : Int
  gpipe : Int
  ctrl : Int
  css : List Int
  sd : SdRec
  serverTimeout : Int
  openDelay : Int

/-- A display that was just created. -/
def View.fresh : View :=
  ⟨false, .notRunning, .restart, -1, -1, .ignore, -1, -1, -1, -1, [], .zero, 0, 0⟩

/-- The daemon as the model sees it.  `ids` and `disp` are the display list, `slot` the display
whose X server is being started, `timer` the time of the next start step. -/
@[ext]
structure Abs where
  ids : List Id
  disp : Id → Option View
  nextId : Id
  slot : Option Id
  timer : Int
  now : Int
  fault : Option Fault
  calls : List Call
  mask : Set Int
  table : Int → Option Owner
  signal : Int
  listen : List Int
  ctrl : Int
  css : List Int
  gid : Int
  sd : SdRec
  stopping : Bool

namespace Abs

def set (i : Id) (v : View) (a : Abs) : Abs := { a with disp := Function.update a.disp i (some v) }

def drop (i : Id) (a : Abs) : Abs :=
  { a with ids := a.ids.filter (· ≠ i), disp := Function.update a.disp i none }

/-- A new display. -/
def add (v : View) (a : Abs) : Abs :=
  { a with
    ids := a.nextId :: a.ids
    disp := Function.update a.disp a.nextId (some v)
    nextId := a.nextId + 1 }

/-- Open `fd` for `o`. -/
def open_ (fd : Int) (o : Owner) (a : Abs) : Abs :=
  { a with table := Function.update a.table fd (some o) }

/-- Close the descriptors of a list. -/
def closeAll (l : List Int) (a : Abs) : Abs :=
  { a with table := fun fd => if fd ∈ l then none else a.table fd }

def register (fd : Int) (a : Abs) : Abs := { a with mask := insert fd a.mask }

/-- Take the descriptors of a list out of the mask. -/
def unregisterAll (l : List Int) (a : Abs) : Abs :=
  { a with mask := { fd | fd ∈ a.mask ∧ fd ∉ l } }

/-- The control socket of a display, or the global one. -/
def ctrlOf (a : Abs) : Option Id → Option (Int × List Int)
  | none => some (a.ctrl, a.css)
  | some i => (a.disp i).map fun v => (v.ctrl, v.css)

def setCtrl (x : Option Id) (fd : Int) (css : List Int) (a : Abs) : Abs :=
  match x with
  | none => { a with ctrl := fd, css := css }
  | some i =>
    match a.disp i with
    | some v => a.set i { v with ctrl := fd, css := css }
    | none => a

end Abs

/-! ## Process ends -/

/-- The process whose end an action reports. -/
inductive Reap where
  | none
  | session
  | server
  deriving DecidableEq

def Reap.apply : Reap → View → View
  | .none, v => v
  | .session, v => { v with pid := -1, userSess := -1 }
  | .server, v => { v with serverPid := -1 }

@[simp] theorem Reap.apply_serverStatus (r : Reap) (v : View) :
    (r.apply v).serverStatus = v.serverStatus := by cases r <;> rfl

@[simp] theorem Reap.apply_status (r : Reap) (v : View) : (r.apply v).status = v.status := by
  cases r <;> rfl

@[simp, grind =] theorem Reap.apply_serverTimeout (r : Reap) (v : View) :
    (r.apply v).serverTimeout = v.serverTimeout := by cases r <;> rfl

@[simp, grind =] theorem Reap.apply_sd (r : Reap) (v : View) : (r.apply v).sd = v.sd := by
  cases r <;> rfl

@[simp, grind =] theorem Reap.apply_openDelay (r : Reap) (v : View) :
    (r.apply v).openDelay = v.openDelay := by cases r <;> rfl

/-- The process was there; of a session all descriptors are closed. -/
def Reap.ok : Reap → View → Prop
  | .none, _ => True
  | .session, v => v.pid ≠ -1 ∧ v.pipe = -1 ∧ v.gpipe = -1 ∧ v.ctrl < 0
  | .server, v => v.serverPid ≠ -1

/-- Neither a session nor a server process. -/
def View.quiet (v : View) : Prop := v.pid = -1 ∧ v.serverPid = -1

/-- The display stays in the list when it is stopped. -/
def View.stays (z : EndState) (v : View) : Prop :=
  ¬ v.quiet ∨ (∃ b, z = .textMode b) ∨ z = .reserve

instance (v : View) : Decidable v.quiet := by unfold View.quiet; infer_instance

/-- A stopped display: a zombie while it has a process, then suspended. -/
def View.stop (z : EndState) (v : View) : View :=
  if v.quiet then
    match z with
    | .textMode _ => { v with status := .textMode }
    | .reserve => { v with status := .reserve }
    | _ => v
  else { v with status := .zombie, zstatus := z.mask }

section

variable (z : EndState) (v : View)

@[simp] theorem View.stop_pid : (v.stop z).pid = v.pid := by
  unfold View.stop; split <;> (try split) <;> rfl

@[simp] theorem View.stop_serverPid : (v.stop z).serverPid = v.serverPid := by
  unfold View.stop; split <;> (try split) <;> rfl

@[simp] theorem View.stop_serverStatus : (v.stop z).serverStatus = v.serverStatus := by
  unfold View.stop; split <;> (try split) <;> rfl

@[simp] theorem View.stop_userSess : (v.stop z).userSess = v.userSess := by
  unfold View.stop; split <;> (try split) <;> rfl

@[simp] theorem View.stop_pipe : (v.stop z).pipe = v.pipe := by
  unfold View.stop; split <;> (try split) <;> rfl

@[simp] theorem View.stop_gpipe : (v.stop z).gpipe = v.gpipe := by
  unfold View.stop; split <;> (try split) <;> rfl

@[simp] theorem View.stop_ctrl : (v.stop z).ctrl = v.ctrl := by
  unfold View.stop; split <;> (try split) <;> rfl

@[simp] theorem View.stop_css : (v.stop z).css = v.css := by
  unfold View.stop; split <;> (try split) <;> rfl

@[simp, grind =] theorem View.stop_serverTimeout : (v.stop z).serverTimeout = v.serverTimeout := by
  unfold View.stop; split <;> (try split) <;> rfl

@[simp, grind =] theorem View.stop_sd : (v.stop z).sd = v.sd := by
  unfold View.stop; split <;> (try split) <;> rfl

@[simp, grind =] theorem View.stop_openDelay : (v.stop z).openDelay = v.openDelay := by
  unfold View.stop; split <;> (try split) <;> rfl

end

/-- The status of a display that stays in the list. -/
theorem View.stop_status {z : EndState} {v : View} (h : v.stays z) :
    (¬ v.quiet ∧ (v.stop z).status = .zombie ∧ (v.stop z).zstatus = z.mask) ∨
      (v.quiet ∧ (∃ b, z = .textMode b) ∧ (v.stop z).status = .textMode) ∨
      (v.quiet ∧ z = .reserve ∧ (v.stop z).status = .reserve) := by
  unfold View.stop
  by_cases hq : v.quiet
  · rcases h with h | ⟨b, rfl⟩ | rfl
    · exact absurd hq h
    · exact .inr (.inl ⟨hq, ⟨b, rfl⟩, by simp [hq]⟩)
    · exact .inr (.inr ⟨hq, rfl, by simp [hq]⟩)
  · exact .inl ⟨hq, by simp [hq], by simp [hq]⟩

/-- A reaped zombie is stopped to the state it was destined for. -/
def View.destined (r : Reap) (z : EndState) (v : View) : Prop :=
  r ≠ .none → v.status = .zombie → z = v.zstatus

/-! ## Actions -/

inductive Act where
  -- displays
  | create (v : View)
  /-- a new display that is not kept -/
  | discard
  | relocate (i : Id) (isLocal : Bool)
  | stop (i : Id) (r : Reap) (z : EndState)
  | remove (i : Id) (r : Reap) (z : EndState)
  | remote (i : Id) (r : Reap) (pid : Int)
  | restart (i : Id) (st : DisplayStatus)
  | serverExit (i : Id) (st : DisplayStatus)
  | wake (i : Id) (st : DisplayStatus)
  | unreserve (i : Id)
  | makeReserve (i : Id)
  | startAwait (i : Id)
  | session (i : Id) (pid p g : Int)
  | noSession (i : Id) (pid : Int)
  | raise (i : Id)
  | user (i : Id) (uid : Int)
  -- X server starts
  | abort (i : Id)
  | serverStart (i : Id) (pid : Int)
  | retry (i : Id) (lost : Bool)
  | giveUp (i : Id) (lost : Bool)
  | escalate (i : Id)
  | timerOff
  | crash (f : Fault)
  | serverReady (i : Id) (pid p g : Int)
  | serverReadyFails (i : Id) (pid : Int)
  | xconnOk (i : Id)
  -- descriptors
  | openCtrl (x : Option Id) (fd : Int)
  | closeCtrl (x : Option Id)
  | accept (x : Option Id) (fd : Int)
  | nuke (x : Option Id) (fd : Int)
  | listenOpen (fd : Int)
  | listenDrop (keep dead : List Int)
  | unregister (fd : Int)
  | closePipe (i : Id)
  | closeGPipe (i : Id)
  | breakPipe (i : Id)
  | breakGPipe (i : Id)
  -- the shutdown record
  | cancelSd
  | reachSd
  | expireSd
  | stopAll
  | putSd (r : SdRec)
  | acceptSd (i : Id)
  | putLocalSd (i : Id) (r : SdRec)
  | dropSd (i : Id)
  -- bookkeeping
  | call (c : Call)
  | conf (i : Id) (serverTimeout openDelay : Int)
  | tick (now : Int)

/-- A start of `i`'s server may be tried: nobody holds the slot and `i` waits, or `i` holds it
and pauses. -/
def Abs.mayTry (a : Abs) (i : Id) (v : View) : Prop :=
  (a.slot = none ∧ v.serverStatus = .awaiting) ∨ (a.slot = some i ∧ v.serverStatus = .pausing)

/-- A start of `i`'s server failed: it could not be forked (`lost`), or it is under way. -/
def Abs.mayFail (a : Abs) (i : Id) (lost : Bool) (v : View) : Prop :=
  if lost then a.mayTry i v else a.slot = some i ∧ v.serverStatus ≠ .ignore

/-- Two descriptors for the pipes of a session. -/
def Abs.freshPair (a : Abs) (p g : Int) : Prop :=
  0 ≤ p ∧ 0 ≤ g ∧ p ≠ g ∧ a.table p = none ∧ a.table g = none

/-- The pipes of `i`'s new session, open and registered. -/
def Abs.openPair (i : Id) (p g : Int) (a : Abs) : Abs :=
  (((a.open_ p (.pipe i)).open_ g (.gpipe i)).register p).register g

/-- The open descriptors of a control socket. -/
def ctrlFds (c : Int × List Int) : List Int := if 0 ≤ c.1 then c.1 :: c.2 else c.2

/-- The circumstances a logged call was made in. -/
def Abs.logs (a : Abs) : Call → Prop
  | .startServer i st =>
    ∃ v, a.disp i = some v ∧ v.status = st ∧ v.serverStatus = .awaiting ∧ a.slot = none
  | .startDisplayP2 i st =>
    ∃ v, a.disp i = some v ∧ ((v.status = .notRunning ∧ st = .running) ∨
      (a.slot = some i ∧ v.serverStatus = .starting ∧ v.status = st))
  | .passiveServerExit i st => ∃ v, a.disp i = some v ∧ v.status = st ∧ v.serverPid ≠ -1

/-- Where the status of a display may go when its server exits. -/
def exitsTo : DisplayStatus → DisplayStatus → Prop
  | .phoenix, st => st = .notRunning
  | .remoteLogin, st => st = .reserve ∨ st = .notRunning
  | .zombie, _ => False
  | st, st' => st' = st

/-- **What each action does, and when it may happen.** -/
def Step : Act → Abs → Abs → Prop
  | .create v, a, b => v = .fresh ∧ b = a.add v
  | .discard, a, b => b = { a.drop a.nextId with nextId := a.nextId + 1 }
  | .relocate i l, a, b => ∃ v, a.disp i = some v ∧ b = a.set i { v with isLocal := l }
  | .stop i r z, a, b =>
    ∃ v, a.disp i = some v ∧ a.slot ≠ some i ∧ r.ok v ∧ v.destined r z ∧ (r.apply v).stays z ∧
      b = a.set i ((r.apply v).stop z)
  | .remove i r z, a, b =>
    ∃ v, a.disp i = some v ∧ a.slot ≠ some i ∧ r.ok v ∧ v.destined r z ∧ (r.apply v).quiet ∧
      (z = .restart ∨ z = .remove) ∧ b = a.drop i
  | .remote i r pid, a, b =>
    ∃ v, a.disp i = some v ∧ a.slot ≠ some i ∧ r.ok v ∧ v.destined r .remote ∧
      (r.apply v).quiet ∧ r ≠ .none ∧
      b = a.set i { r.apply v with
        serverPid := pid, status := if pid = -1 then .notRunning else .remoteLogin }
  | .restart i st, a, b =>
    ∃ v, a.disp i = some v ∧ Reap.session.ok v ∧ v.status ≠ .zombie ∧
      (st = .notRunning ∨ (st = .phoenix ∧ v.serverPid ≠ -1)) ∧
      b = a.set i { Reap.session.apply v with status := st }
  | .serverExit i st, a, b =>
    ∃ v, a.disp i = some v ∧ v.serverPid ≠ -1 ∧ exitsTo v.status st ∧
      b = a.set i { v with serverPid := -1, status := st }
  | .wake i st, a, b =>
    ∃ v, a.disp i = some v ∧ v.status = .textMode ∧ (st = .reserve ∨ st = .notRunning) ∧
      b = a.set i { v with status := st }
  | .unreserve i, a, b =>
    ∃ v, a.disp i = some v ∧ v.status = .reserve ∧ b = a.set i { v with status := .notRunning }
  | .makeReserve i, a, b =>
    ∃ v, a.disp i = some v ∧ v.status = .notRunning ∧ b = a.set i { v with status := .reserve }
  | .startAwait i, a, b =>
    ∃ v, a.disp i = some v ∧ v.status = .notRunning ∧ v.serverPid = -1 ∧
      b = a.set i { v with status := .running, serverStatus := .awaiting }
  | .session i pid p g, a, b =>
    ∃ v, a.disp i = some v ∧ v.status = .notRunning ∧ pid ≠ -1 ∧ a.freshPair p g ∧
      b = (a.openPair i p g).set i { v with status := .running, pid := pid, pipe := p, gpipe := g }
  | .noSession i pid, a, b =>
    ∃ v, a.disp i = some v ∧ v.status = .notRunning ∧ (pid = v.pid ∨ pid = -1) ∧
      b = a.set i { v with pid := pid }
  | .raise i, a, b =>
    ∃ v, a.disp i = some v ∧ v.status = .running ∧ v.pid ≠ -1 ∧ b = a.set i { v with status := .raiser }
  | .user i uid, a, b =>
    ∃ v, a.disp i = some v ∧ v.pipe ≠ -1 ∧ b = a.set i { v with userSess := uid }
  | .abort i, a, b =>
    a.slot = some i ∧
      ((∃ v, a.disp i = some v ∧
          b = { a.set i { v with serverStatus := .ignore } with
            slot := none, timer := if v.serverStatus = .ignore then a.timer else TO_INF }) ∨
        (a.disp i = none ∧ b = { a with slot := none }))
  | .serverStart i pid, a, b =>
    ∃ v, a.disp i = some v ∧ a.mayTry i v ∧ pid ≠ -1 ∧
      b = { a.set i { v with serverStatus := .starting, serverPid := pid } with
        slot := some i, timer := v.serverTimeout + a.now }
  | .retry i lost, a, b =>
    ∃ v, a.disp i = some v ∧ a.mayFail i lost v ∧
      b = { a.set i { v with
          serverStatus := .pausing, serverPid := if lost then -1 else v.serverPid } with
        slot := some i, timer := v.openDelay + a.now }
  | .giveUp i lost, a, b =>
    ∃ v, a.disp i = some v ∧ a.mayFail i lost v ∧
      b = { a.set i { v with
          serverStatus := .ignore, serverPid := if lost then -1 else v.serverPid } with
        slot := none, timer := TO_INF }
  | .escalate i, a, b =>
    ∃ v, a.disp i = some v ∧ a.slot = some i ∧
      ((v.serverStatus = .starting ∧
          b = { a.set i { v with serverStatus := .terminated } with
            timer := v.serverTimeout + a.now }) ∨
        (v.serverStatus = .terminated ∧
          b = { a.set i { v with serverStatus := .killed } with timer := 10 + a.now }))
  | .timerOff, a, b =>
    (∃ i, a.slot = some i ∧ ∀ v, a.disp i = some v → v.serverStatus.inStart = false) ∧
      b = { a with timer := TO_INF }
  | .crash f, a, b =>
    a.slot = none ∧ a.timer ≤ a.now ∧ b = { a with timer := TO_INF, fault := some f }
  | .serverReady i pid p g, a, b =>
    ∃ v, a.disp i = some v ∧ a.slot = some i ∧ v.serverStatus = .starting ∧ pid ≠ -1 ∧
      a.freshPair p g ∧
      b = { (a.openPair i p g).set i { v with
          serverStatus := .ignore, pid := pid, pipe := p, gpipe := g } with timer := TO_INF }
  | .serverReadyFails i pid, a, b =>
    ∃ v, a.disp i = some v ∧ a.slot = some i ∧ v.serverStatus = .starting ∧
      (pid = v.pid ∨ pid = -1) ∧
      b = { a.set i { v with serverStatus := .ignore, status := .notRunning, pid := pid } with
        timer := TO_INF }
  | .xconnOk i, a, b =>
    ∃ v, a.disp i = some v ∧ v.pipe ≠ -1 ∧ b = { a with slot := none }
  | .openCtrl x fd, a, b =>
    ∃ c, a.ctrlOf x = some c ∧ c.1 < 0 ∧ 0 ≤ fd ∧ a.table fd = none ∧
      (∀ i v, x = some i → a.disp i = some v → v.pid ≠ -1) ∧
      b = ((a.setCtrl x fd c.2).open_ fd (.ctrl x)).register fd
  | .closeCtrl x, a, b =>
    ∃ c, a.ctrlOf x = some c ∧
      b = ((a.setCtrl x (-1) []).closeAll (ctrlFds c)).unregisterAll (ctrlFds c)
  | .accept x fd, a, b =>
    ∃ c, a.ctrlOf x = some c ∧ 0 ≤ c.1 ∧ 0 ≤ fd ∧ a.table fd = none ∧
      b = ((a.setCtrl x c.1 (fd :: c.2)).open_ fd (.conn x)).register fd
  | .nuke x fd, a, b =>
    ∃ c, a.ctrlOf x = some c ∧ fd ∈ c.2 ∧
      b = ((a.setCtrl x c.1 (c.2.filter (· ≠ fd))).closeAll [fd]).unregisterAll [fd]
  | .listenOpen fd, a, b =>
    0 ≤ fd ∧ a.table fd = none ∧
      b = (({ a with listen := fd :: a.listen }).open_ fd .listen).register fd
  | .listenDrop keep dead, a, b =>
    a.listen.Perm (keep ++ dead) ∧
      b = (({ a with listen := keep }).closeAll dead).unregisterAll dead
  | .unregister fd, a, b => b = a.unregisterAll [fd]
  | .closePipe i, a, b =>
    ∃ v, a.disp i = some v ∧ v.pipe ≠ -1 ∧
      b = ((a.set i { v with pipe := -1 }).closeAll [v.pipe]).unregisterAll [v.pipe]
  | .closeGPipe i, a, b =>
    ∃ v, a.disp i = some v ∧ v.gpipe ≠ -1 ∧
      b = ((a.set i { v with gpipe := -1 }).closeAll [v.gpipe]).unregisterAll [v.gpipe]
  | .breakPipe i, a, b =>
    ∃ v, a.disp i = some v ∧ v.pipe ≠ -1 ∧
      b = (a.set i { v with pipe := -1 }).closeAll [v.pipe]
  | .breakGPipe i, a, b =>
    ∃ v, a.disp i = some v ∧ v.gpipe ≠ -1 ∧
      b = (a.set i { v with gpipe := -1 }).closeAll [v.gpipe]
  | .cancelSd, a, b =>
    b = { a with sd := { a.sd with how := 0, osname := none }, stopping := false }
  | .reachSd, a, b =>
    a.sd.how ≠ 0 ∧ (a.sd.start = TO_INF ∨ a.sd.start ≤ a.now) ∧
      b = { a with sd := { a.sd with start := TO_INF } }
  | .expireSd, a, b => b = { a with sd := { a.sd with timeout := TO_INF } }
  | .stopAll, a, b => b = { a with stopping := true }
  | .putSd r, a, b => b = { a with sd := r }
  | .acceptSd i, a, b =>
    ∃ v, a.disp i = some v ∧ v.sd.how ≠ 0 ∧
      b = { a.set i { v with sd := { v.sd with how := 0, osname := none } } with sd := v.sd }
  | .putLocalSd i r, a, b => ∃ v, a.disp i = some v ∧ b = a.set i { v with sd := r }
  | .dropSd i, a, b =>
    ∃ v r, a.disp i = some v ∧ r.how = 0 ∧ b = a.set i { v with sd := r }
  | .call c, a, b => a.logs c ∧ b = { a with calls := c :: a.calls }
  | .conf i t o, a, b =>
    ∃ v, a.disp i = some v ∧ b = a.set i { v with serverTimeout := t, openDelay := o }
  | .tick n, a, b => a.now ≤ n ∧ n < TO_INF ∧ b = { a with now := n }

/-! ## What the operations do to the displays -/

namespace Abs

variable {i j : Id} {v w : View} {a : Abs} {o : Owner} {fd p g : Int} {l : List Int}

@[simp, grind =] theorem set_disp : (a.set i v).disp j = if j = i then some v else a.disp j := by
  simp [set, Function.update_apply]

@[simp, grind =] theorem drop_disp : (a.drop i).disp j = if j = i then none else a.disp j := by
  simp [drop, Function.update_apply]

@[simp, grind =] theorem add_disp : (a.add v).disp j = if j = a.nextId then some v else a.disp j := by
  simp [add, Function.update_apply]

@[simp, grind =] theorem open_disp : (a.open_ fd o).disp j = a.disp j := rfl

@[simp, grind =] theorem register_disp : (a.register fd).disp j = a.disp j := rfl

@[simp, grind =] theorem closeAll_disp : (a.closeAll l).disp j = a.disp j := rfl

@[simp, grind =] theorem unregisterAll_disp : (a.unregisterAll l).disp j = a.disp j := rfl

@[simp, grind =] theorem openPair_disp : (a.openPair i p g).disp j = a.disp j := rfl

section

variable {p g : Int}

@[simp] theorem openPair_slot : (a.openPair i p g).slot = a.slot := by
  simp [openPair, register, open_]

@[simp, grind =] theorem openPair_nextId : (a.openPair i p g).nextId = a.nextId := by
  simp [openPair, register, open_]

@[simp] theorem openPair_now : (a.openPair i p g).now = a.now := by
  simp [openPair, register, open_]

@[simp] theorem openPair_calls : (a.openPair i p g).calls = a.calls := by
  simp [openPair, register, open_]

/-- The new descriptors are not seen in the displays. -/
@[simp] theorem openPair_set_disp : ((a.openPair i p g).set j v).disp = (a.set j v).disp := by
  simp [openPair, register, open_, set]

/-- Nor is the timer. -/
theorem openPair_set_timer_disp {t : Int} :
    { (a.openPair i p g).set j v with timer := t }.disp = (a.set j v).disp := by simp

end

section

variable (i : Id) (v : View) (fd p g : Int) (o : Owner) (l : List Int) (a : Abs)

@[simp, grind =] theorem open_ids : (a.open_ fd o).ids = a.ids := rfl

@[simp, grind =] theorem open_nextId : (a.open_ fd o).nextId = a.nextId := rfl

@[simp, grind =] theorem open_signal : (a.open_ fd o).signal = a.signal := rfl

@[simp, grind =] theorem register_ids : (a.register fd).ids = a.ids := rfl

@[simp, grind =] theorem register_nextId : (a.register fd).nextId = a.nextId := rfl

@[simp, grind =] theorem register_signal : (a.register fd).signal = a.signal := rfl

@[simp, grind =] theorem set_ids : (a.set i v).ids = a.ids := rfl

@[simp, grind =] theorem set_nextId : (a.set i v).nextId = a.nextId := rfl

@[simp, grind =] theorem set_signal : (a.set i v).signal = a.signal := rfl

@[simp, grind =] theorem openPair_ids : (a.openPair i p g).ids = a.ids := by simp [openPair]

@[simp, grind =] theorem openPair_signal : (a.openPair i p g).signal = a.signal := by simp [openPair]

@[simp, grind =] theorem closeAll_ids : (a.closeAll l).ids = a.ids := rfl

@[simp, grind =] theorem closeAll_nextId : (a.closeAll l).nextId = a.nextId := rfl

@[simp, grind =] theorem closeAll_signal : (a.closeAll l).signal = a.signal := rfl

@[simp, grind =] theorem unregisterAll_ids : (a.unregisterAll l).ids = a.ids := rfl

@[simp, grind =] theorem unregisterAll_nextId : (a.unregisterAll l).nextId = a.nextId := rfl

@[simp, grind =] theorem unregisterAll_signal : (a.unregisterAll l).signal = a.signal := rfl

end

@[simp] theorem set_set : (a.set i v).set i w = a.set i w := by simp [set]

theorem set_eq_self (h : a.disp i = some v) : a.set i v = a := by
  unfold set
  rw [← h, Function.update_eq_self]

@[simp] theorem set_slot : (a.set i v).slot = a.slot := rfl

@[simp] theorem set_now : (a.set i v).now = a.now := rfl

@[grind =] theorem setCtrl_disp {x : Option Id} {css : List Int} : (a.setCtrl x fd css).disp j =
    if x = some j then (a.disp j).map fun v => { v with ctrl := fd, css := css } else a.disp j := by
  cases x with
  | none => rfl
  | some i =>
    unfold setCtrl
    by_cases hj : j = i
    · subst hj
      cases h : a.disp j <;> simp [h]
    · have hne : ¬ (some i = some j) := fun h => hj (Option.some.inj h).symm
      rw [if_neg hne]
      dsimp only
      split
      · simp [hj]
      · rfl

/-- A display keeps everything but its control socket. -/
theorem setCtrl_view (x : Option Id) (fd : Int) (css : List Int) (h : a.disp i = some v) :
    ∃ c l, (a.setCtrl x fd css).disp i = some { v with ctrl := c, css := l } := by
  rw [setCtrl_disp, h]
  split
  · exact ⟨fd, css, rfl⟩
  · exact ⟨v.ctrl, v.css, rfl⟩

theorem setCtrl_origin {x : Option Id} {css : List Int} (h : (a.setCtrl x fd css).disp i = some w) :
    ∃ v c l, a.disp i = some v ∧ w = { v with ctrl := c, css := l } := by
  rw [setCtrl_disp] at h
  split at h
  · obtain ⟨v, hv, rfl⟩ := Option.map_eq_some_iff.mp h
    exact ⟨v, fd, css, hv, rfl⟩
  · exact ⟨w, w.ctrl, w.css, h, rfl⟩

end Abs

/-! ## Identities -/

/-- A number is given to one display only. -/
structure Keys (a : Abs) : Prop where
  nodup : a.ids.Nodup
  below : ∀ i ∈ a.ids, i < a.nextId

namespace Abs

variable (x : Option Id) (fd : Int) (css : List Int) (a : Abs)

theorem setCtrl_some {i : Id} {v : View} (h : a.disp i = some v) :
    a.setCtrl (some i) fd css = a.set i { v with ctrl := fd, css := css } := by
  simp [setCtrl, h]

/-- Only the display and the fields of the global socket are written. -/
theorem setCtrl_frame : ∃ disp ctrl l,
    a.setCtrl x fd css = { a with disp := disp, ctrl := ctrl, css := l } := by
  unfold setCtrl
  split
  · exact ⟨a.disp, fd, css, rfl⟩
  · split <;> exact ⟨_, a.ctrl, a.css, rfl⟩

@[simp, grind =] theorem setCtrl_ids : (a.setCtrl x fd css).ids = a.ids := by
  obtain ⟨_, _, _, h⟩ := a.setCtrl_frame x fd css; rw [h]

@[simp, grind =] theorem setCtrl_nextId : (a.setCtrl x fd css).nextId = a.nextId := by
  obtain ⟨_, _, _, h⟩ := a.setCtrl_frame x fd css; rw [h]

@[simp, grind =] theorem setCtrl_slot : (a.setCtrl x fd css).slot = a.slot := by
  obtain ⟨_, _, _, h⟩ := a.setCtrl_frame x fd css; rw [h]

@[simp, grind =] theorem setCtrl_timer : (a.setCtrl x fd css).timer = a.timer := by
  obtain ⟨_, _, _, h⟩ := a.setCtrl_frame x fd css; rw [h]

@[simp, grind =] theorem setCtrl_now : (a.setCtrl x fd css).now = a.now := by
  obtain ⟨_, _, _, h⟩ := a.setCtrl_frame x fd css; rw [h]

@[simp, grind =] theorem setCtrl_fault : (a.setCtrl x fd css).fault = a.fault := by
  obtain ⟨_, _, _, h⟩ := a.setCtrl_frame x fd css; rw [h]

@[simp, grind =] theorem setCtrl_calls : (a.setCtrl x fd css).calls = a.calls := by
  obtain ⟨_, _, _, h⟩ := a.setCtrl_frame x fd css; rw [h]

@[simp, grind =] theorem setCtrl_mask : (a.setCtrl x fd css).mask = a.mask := by
  obtain ⟨_, _, _, h⟩ := a.setCtrl_frame x fd css; rw [h]

@[simp, grind =] theorem setCtrl_table : (a.setCtrl x fd css).table = a.table := by
  obtain ⟨_, _, _, h⟩ := a.setCtrl_frame x fd css; rw [h]

@[simp, grind =] theorem setCtrl_signal : (a.setCtrl x fd css).signal = a.signal := by
  obtain ⟨_, _, _, h⟩ := a.setCtrl_frame x fd css; rw [h]

@[simp, grind =] theorem setCtrl_listen : (a.setCtrl x fd css).listen = a.listen := by
  obtain ⟨_, _, _, h⟩ := a.setCtrl_frame x fd css; rw [h]

@[simp, grind =] theorem setCtrl_sd : (a.setCtrl x fd css).sd = a.sd := by
  obtain ⟨_, _, _, h⟩ := a.setCtrl_frame x fd css; rw [h]

@[simp, grind =] theorem setCtrl_stopping : (a.setCtrl x fd css).stopping = a.stopping := by
  obtain ⟨_, _, _, h⟩ := a.setCtrl_frame x fd css; rw [h]

end Abs

/-- Most actions keep the list of displays. -/
theorem Step.same_ids {x : Act} {a b : Abs} (hs : Step x a b) :
    (b.ids = a.ids ∧ b.nextId = a.nextId) ∨
      (b.ids = a.nextId :: a.ids ∧ b.nextId = a.nextId + 1) ∨
      (∃ i, b.ids = a.ids.filter (· ≠ i) ∧ a.nextId ≤ b.nextId) := by
  cases x with
  | create v => obtain ⟨-, rfl⟩ := hs; exact .inr (.inl ⟨rfl, rfl⟩)
  | discard => cases hs; exact .inr (.inr ⟨a.nextId, rfl, Nat.le_succ _⟩)
  | remove i r z =>
    obtain ⟨v, -, -, -, -, -, -, rfl⟩ := hs
    exact .inr (.inr ⟨i, rfl, Nat.le_refl _⟩)
  | _ =>
    left
    simp only [Step] at hs
    grind -ring -linarith -order

/-- The pipe of the signal handlers is opened once, before the loop. -/
theorem Step.same_signal {x : Act} {a b : Abs} (hs : Step x a b) : b.signal = a.signal := by
  cases x <;>
    (simp only [Step] at hs
     grind -ring -linarith -order [Abs.add, Abs.drop])

/-- **Identities stay distinct.** -/
theorem Keys.step {x : Act} {a b : Abs} (h : Keys a) (hs : Step x a b) : Keys b := by
  rcases hs.same_ids with ⟨hi, hn⟩ | ⟨hi, hn⟩ | ⟨i, hi, hn⟩
  · exact ⟨hi ▸ h.nodup, fun j hj => hn ▸ h.below j (hi ▸ hj)⟩
  · refine ⟨?_, ?_⟩
    · rw [hi, List.nodup_cons]
      exact ⟨fun hm => Nat.lt_irrefl _ (h.below _ hm), h.nodup⟩
    · intro j hj
      rw [hi] at hj
      rw [hn]
      rcases List.mem_cons.mp hj with rfl | hj
      · exact Nat.lt_succ_self _
      · exact Nat.lt_succ_of_lt (h.below j hj)
  · refine ⟨hi ▸ h.nodup.filter _, ?_⟩
    intro j hj
    rw [hi] at hj
    exact Nat.lt_of_lt_of_le (h.below j (List.mem_filter.mp hj).1) hn

end Kdm
