import Kdm.Abstract.Model
import Kdm.Backend.MainLoop

/-!
# From the daemon's state to the model

`abs` forgets names, terminals, histories and texts.  The lemmas of this file say what the
writes and system calls that the code is made of do to the abstraction; most of the code's
state is invisible to it.
-/

namespace Kdm

open Runs

/-- What the model sees of a display. -/
def viewOf (d : Display) : View where
  isLocal := d.isLocal
  status := d.status
  zstatus := d.zstatus
  pid := d.pid
  serverPid := d.serverPid
  serverStatus := d.serverStatus
  userSess := d.userSess
  pipe := d.pipe
  gpipe := d.gpipe
  ctrl := d.ctrl.fd
  css := d.ctrl.css
  sd := d.sdRec
  serverTimeout := d.conf.serverTimeout
  openDelay := d.conf.openDelay

/-- What the model sees of the daemon. -/
def abs (s : State) : Abs where
  ids := s.displays.map Display.id
  disp i := (s.find i).map viewOf
  nextId := s.nextId
  slot := s.startingServer
  timer := s.serverTimeout
  now := s.now
  fault := s.fault
  calls := s.calls
  mask := { fd | fd ∈ s.wellKnownSocketsMask }
  table := s.fdOwner
  signal := s.signalFd
  listen := s.listensocks.map SockList.fd
  ctrl := s.ctrl.fd
  css := s.ctrl.css
  gid := s.ctrl.gid
  sd := s.sdRec
  stopping := s.stopping

section

variable {s : State} {i j : Id} {d : Display} {f : Display → Display}

theorem abs_disp (h : s.find i = some d) : (abs s).disp i = some (viewOf d) := by
  simp [abs, h]

theorem abs_disp_none (h : s.find i = none) : (abs s).disp i = none := by
  simp [abs, h]

theorem find_of_disp {v : View} (h : (abs s).disp i = some v) : ∃ d, s.find i = some d ∧ v = viewOf d := by
  simp only [abs, Option.map_eq_some_iff] at h
  obtain ⟨d, hd, rfl⟩ := h
  exact ⟨d, hd, rfl⟩

theorem State.find_id (h : s.find i = some d) : d.id = i := Keyed.key_of_get h

theorem State.find_mem (h : s.find i = some d) : d ∈ s.displays := Keyed.mem_of_get h

theorem State.find_modify (hid : ∀ d, (f d).id = d.id) :
    (s.modify i f).find j = if j = i then (s.find i).map f else s.find j :=
  Keyed.get_update hid

/-- **A write through a display pointer.** -/
theorem abs_modify (hd : s.find i = some d)
    (hid : ∀ d, (f d).id = d.id) :
    abs (s.modify i f) = (abs s).set i (viewOf (f d)) := by
  have hfd : ∀ j, ((s.modify i f).find j).map viewOf =
      Function.update (fun j => (s.find j).map viewOf) i (some (viewOf (f d))) j := by
    intro j
    rw [State.find_modify hid, Function.update_apply]
    split
    · simp [hd]
    · rfl
  have hids : (s.modify i f).displays.map Display.id = s.displays.map Display.id :=
    Keyed.map_key_update hid
  unfold abs Abs.set
  rw [funext hfd, hids]
  rfl

theorem find_modify_self (hd : s.find i = some d)
    (hid : ∀ d, (f d).id = d.id) :
    (s.modify i f).find i = some (f d) := by
  rw [State.find_modify hid, if_pos rfl, hd]
  rfl

theorem abs_setStatus (hd : s.find i = some d) (st : DisplayStatus) :
    abs (s.setStatus i st) = (abs s).set i { viewOf d with status := st } :=
  abs_modify hd fun _ => rfl

theorem abs_setServerStatus (hd : s.find i = some d) (st : ServerStatus) :
    abs (s.setServerStatus i st) = (abs s).set i { viewOf d with serverStatus := st } :=
  abs_modify hd fun _ => rfl

theorem abs_setServerPid (hd : s.find i = some d) (pid : Int) :
    abs (s.setServerPid i pid) = (abs s).set i { viewOf d with serverPid := pid } :=
  abs_modify hd fun _ => rfl

theorem abs_setPid (hd : s.find i = some d) (pid : Int) :
    abs (s.setPid i pid) = (abs s).set i { viewOf d with pid := pid } :=
  abs_modify hd fun _ => rfl

/-- A write to fields that the model does not see. -/
theorem abs_modify_unseen (hid : ∀ d, (f d).id = d.id)
    (hf : ∀ d, viewOf (f d) = viewOf d) :
    abs (s.modify i f) = abs s := by
  have hfd : ∀ j, ((s.modify i f).find j).map viewOf = (s.find j).map viewOf := by
    intro j
    rw [State.find_modify hid]
    split
    · rename_i hj; subst hj; cases s.find j <;> simp [hf]
    · rfl
  have hids : (s.modify i f).displays.map Display.id = s.displays.map Display.id :=
    Keyed.map_key_update hid
  unfold abs
  rw [funext hfd, hids]
  rfl

theorem abs_removeDisplay : abs (removeDisplay i s) = (abs s).drop i := by
  have hfd : ∀ j, ((removeDisplay i s).find j).map viewOf =
      Function.update (fun j => (s.find j).map viewOf) i none j := by
    intro j
    have : (removeDisplay i s).find j = if j = i then none else s.find j := Keyed.get_erase
    rw [this, Function.update_apply]
    split <;> rfl
  have hids : (removeDisplay i s).displays.map Display.id =
      (s.displays.map Display.id).filter (· ≠ i) := Keyed.map_key_erase
  unfold abs Abs.drop
  rw [funext hfd, hids]
  rfl

@[simp] theorem abs_modifyHist (name : String) (g : DispHist → DispHist) :
    abs (s.modifyHist name g) = abs s := rfl

@[simp] theorem find_modifyHist (name : String) (g : DispHist → DispHist) :
    (s.modifyHist name g).find i = s.find i := rfl

@[simp] theorem abs_goto (p : Phase) : abs (s.goto p) = abs s := rfl

@[simp] theorem abs_withEnv (env : Env) : abs (s.withEnv env) = abs s := rfl

theorem withDisplay_some {g : Display → State → State} (h : s.find i = some d) :
    s.withDisplay i g = g d s := by simp [State.withDisplay, h]

theorem withDisplay_none {g : Display → State → State} (h : s.find i = none) :
    s.withDisplay i g = s := by simp [State.withDisplay, h]

/-! ## System calls -/

theorem answer_env (s : State) : ∃ env, s.answer.2 = { s with env := env } := by
  unfold State.answer
  split
  · exact ⟨s.env, rfl⟩
  · exact ⟨_, rfl⟩

theorem malloc_env (s : State) : ∃ env, s.malloc.2 = { s with env := env } := answer_env s

theorem fork_env (s : State) : ∃ env, s.fork.2 = { s with env := env } := by
  obtain ⟨env, h⟩ := answer_env s
  unfold State.fork
  simp only [h]
  split <;> exact ⟨env, rfl⟩

@[simp] theorem abs_answer (s : State) : abs s.answer.2 = abs s := by
  obtain ⟨env, h⟩ := answer_env s; rw [h]; rfl

@[simp] theorem find_answer (s : State) : s.answer.2.find i = s.find i := by
  obtain ⟨env, h⟩ := answer_env s; rw [h]; rfl

@[simp] theorem abs_malloc (s : State) : abs s.malloc.2 = abs s := abs_answer s

theorem abs_of_answer {x : Int} {s' : State} (h : s.answer = (x, s')) : abs s' = abs s := by
  have := abs_answer s; rwa [h] at this

theorem abs_of_malloc {ok : Bool} {s' : State} (h : s.malloc = (ok, s')) : abs s' = abs s := by
  have := abs_malloc s; rwa [h] at this

@[simp] theorem find_malloc (s : State) : s.malloc.2.find i = s.find i := find_answer s

@[simp] theorem abs_fork (s : State) : abs s.fork.2 = abs s := by
  obtain ⟨env, h⟩ := fork_env s; rw [h]; rfl

theorem abs_of_fork {pid : Int} {s' : State} (h : s.fork = (pid, s')) : abs s' = abs s := by
  have := abs_fork s; rwa [h] at this

theorem find_of_fork {pid : Int} {s' : State} (h : s.fork = (pid, s')) : s'.find i = s.find i := by
  obtain ⟨env, he⟩ := fork_env s
  rw [h] at he
  rw [show s' = _ from he]
  rfl

theorem modify_modify {g : Display → Display}
    (hid : ∀ d, (f d).id = d.id) :
    (s.modify i f).modify i g = s.modify i fun d => g (f d) := by
  unfold State.modify
  rw [Keyed.update_update hid]

@[simp] theorem find_fork (s : State) : s.fork.2.find i = s.find i := by
  obtain ⟨env, h⟩ := fork_env s; rw [h]; rfl

/-- What a call that opens a descriptor may do. -/
theorem openFd_spec (o : Owner) (s : State) :
    (∃ env, s.openFd o = (-1, { s with env := env })) ∨
      ∃ fd env, s.openFd o = (fd, { s with env := env, fds := (fd, o) :: s.fds }) ∧ 0 ≤ fd ∧
        s.fdOwner fd = none := by
  obtain ⟨env, h⟩ := answer_env s
  unfold State.openFd
  simp only [h]
  split
  · rename_i hc
    exact .inr ⟨_, env, rfl, hc.1, hc.2⟩
  · exact .inl ⟨env, rfl⟩

theorem fdOwner_cons {fd x : Int} {o : Owner} {l : List (Int × Owner)} :
    (Keyed.get Prod.fst ((fd, o) :: l) x).map Prod.snd =
      if x = fd then some o else (Keyed.get Prod.fst l x).map Prod.snd := by
  rw [Keyed.get_cons]
  by_cases h : x = fd
  · subst h; simp
  · simp [h, Ne.symm h]

theorem abs_open (fd : Int) (o : Owner) (env : Env) :
    abs { s with env := env, fds := (fd, o) :: s.fds } = (abs s).open_ fd o := by
  have ht : ∀ x, State.fdOwner { s with env := env, fds := (fd, o) :: s.fds } x =
      Function.update s.fdOwner fd (some o) x := by
    intro x
    rw [Function.update_apply]
    exact fdOwner_cons
  unfold abs Abs.open_
  rw [funext ht]
  rfl

@[simp] theorem abs_close (fd : Int) : abs (s.close fd) = (abs s).closeAll [fd] := by
  have ht : ∀ x, (s.close fd).fdOwner x = if x ∈ [fd] then none else s.fdOwner x := by
    intro x
    unfold State.fdOwner State.close
    rw [Keyed.get_erase]
    by_cases h : x = fd <;> simp [h]
  unfold abs Abs.closeAll
  rw [funext ht]
  rfl

@[simp] theorem abs_registerInput (fd : Int) : abs (s.registerInput fd) = (abs s).register fd := by
  have hm : { x | x ∈ (s.registerInput fd).wellKnownSocketsMask } =
      insert fd { x | x ∈ s.wellKnownSocketsMask } := by
    ext x; simp [State.registerInput]
  unfold abs Abs.register
  rw [hm]
  rfl

@[simp] theorem abs_unregisterInput (fd : Int) :
    abs (s.unregisterInput fd) = (abs s).unregisterAll [fd] := by
  have hm : { x | x ∈ (s.unregisterInput fd).wellKnownSocketsMask } =
      { x | x ∈ { x | x ∈ s.wellKnownSocketsMask } ∧ x ∉ [fd] } := by
    ext x; simp [State.unregisterInput]
  unfold abs Abs.unregisterAll
  rw [hm]
  rfl

@[simp] theorem find_close (fd : Int) : (s.close fd).find i = s.find i := rfl

@[simp] theorem find_registerInput (fd : Int) : (s.registerInput fd).find i = s.find i := rfl

@[simp] theorem find_unregisterInput (fd : Int) : (s.unregisterInput fd).find i = s.find i := rfl

/-! ## Policies -/

/-- Actions that no result forbids. -/
def Act.ordinary : Act → Bool
  | .stop _ r z => r ≠ .none || z = .remove
  | .makeReserve _ | .restart _ _ | .raise _ | .serverReadyFails _ _ | .xconnOk _
  | .breakPipe _ | .breakGPipe _ | .serverStart _ _ | .retry _ _ | .escalate _
  | .cancelSd | .reachSd | .expireSd | .stopAll | .putSd _ | .acceptSd _ | .putLocalSd _ _ | .conf _ _ _ | .tick _ => false
  | _ => true

/-- Ordinary actions leave the shutdown record, the clock and the stopping flag alone. -/
theorem Step.ordinary_frame {x : Act} {a b : Abs} (hx : x.ordinary = true) (hs : Step x a b) :
    b.sd = a.sd ∧ b.now = a.now ∧ b.stopping = a.stopping := by
  have hctrl (x : Option Id) (fd : Int) (css : List Int) :
      (a.setCtrl x fd css).sd = a.sd ∧ (a.setCtrl x fd css).stopping = a.stopping := by
    cases x with
    | none => exact ⟨rfl, rfl⟩
    | some i => unfold Abs.setCtrl; dsimp only; split <;> exact ⟨rfl, rfl⟩
  cases x <;> first
    | exact Bool.noConfusion hx
    | (simp only [Step] at hs
       grind -ring -linarith -order [Abs.setCtrl_now, Abs.set, Abs.add, Abs.drop, Abs.openPair, Abs.open_, Abs.register,
         Abs.closeAll, Abs.unregisterAll])

/-- Actions that set the timer of the server start. -/
def Act.timed : Act → Bool
  | .serverStart _ _ | .retry _ _ | .escalate _ => true
  | _ => false

def Ordinary (P : Act → Abs → Prop) : Prop := ∀ x a, x.ordinary = true → P x a

def Timed (P : Act → Abs → Prop) : Prop := ∀ x a, x.timed = true → P x a

/-- `Steps P a b`: from `a` to `b` by actions that `P` admits. -/
abbrev Steps (P : Act → Abs → Prop) : Abs → Abs → Prop := Path Step P

variable {P : Act → Abs → Prop}

/-- The policy of the actions that no result forbids. -/
def OnlyOrdinary : Act → Abs → Prop := fun x _ => x.ordinary = true

theorem OnlyOrdinary.self : Ordinary OnlyOrdinary := fun _ _ h => h

theorem OnlyOrdinary.steps (hP : Ordinary P) {a b : Abs} (h : Steps OnlyOrdinary a b) :
    Steps P a b := h.mono hP

theorem OnlyOrdinary.frame {a b : Abs} (h : Steps OnlyOrdinary a b) :
    b.sd = a.sd ∧ b.now = a.now ∧ b.stopping = a.stopping := by
  refine h.preserves (I := fun b => b.sd = a.sd ∧ b.now = a.now ∧ b.stopping = a.stopping) ?_
    ⟨rfl, rfl, rfl⟩
  intro x b c hx hs hb
  obtain ⟨h1, h2, h3⟩ := hs.ordinary_frame hx
  exact ⟨h1.trans hb.1, h2.trans hb.2.1, h3.trans hb.2.2⟩

/-- A walk over the displays, with a property of the state that every call keeps. -/
theorem forEachDisplay_steps {g : Id → State → State} {Q : State → Prop}
    (hg : ∀ i s, Q s → Steps P (abs s) (abs (g i s)) ∧ Q (g i s)) (hs : Q s) :
    Steps P (abs s) (abs (forEachDisplay g s)) ∧ Q (forEachDisplay g s) := by
  unfold forEachDisplay
  generalize s.displays.map Display.id = ids
  induction ids generalizing s with
  | nil => exact ⟨Path.nil _, hs⟩
  | cons i ids ih =>
    obtain ⟨h1, h2⟩ := hg i s hs
    obtain ⟨h3, h4⟩ := ih h2
    exact ⟨h1.trans h3, h4⟩

theorem forEachDisplayRev_unseen {g : Id → State → State} (hg : ∀ i s, abs (g i s) = abs s) :
    abs (forEachDisplayRev g s) = abs s := by
  unfold forEachDisplayRev
  generalize (s.displays.map Display.id).reverse = ids
  induction ids generalizing s with
  | nil => rfl
  | cons i ids ih => exact ih.trans (hg i s)

end

end Kdm
