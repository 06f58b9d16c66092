import Kdm.Refine.Reach

/-!
# Who is logged in when the machine goes down

`main` executes the shutdown that `sdRec` holds when the main loop exits.  The loop has two notions
of somebody being logged in: `anyUserLogins`, which `wouldShutdown` asks at the timeout, knows the
terminals, while `anyRunningDisplays`, which ends the loop, knows the displays only.

`reachable_sparesLogins` says what is left of the promise when the terminals are looked after: no X
session is ever ended by a shutdown that is not forced.
-/

namespace Kdm

open Runs

variable {s s' : State} {e : Event} {C : State → Event → Prop}

/-- Somebody is logged in on a display or on a terminal; of a remote login the user is not known. -/
inductive LoggedIn (s : State) : Option Int → Prop
  | session {d : Display} : d ∈ s.displays → 0 ≤ d.userSess → LoggedIn s (some d.userSess)
  | remote {d : Display} : d ∈ s.displays → d.status = .remoteLogin → LoggedIn s none
  | terminal {ut : UtEntry} : ut ∈ utEntries s → listsEntry ⟨true, false, true⟩ ut = true →
      LoggedIn s ut.uid

/-- A shutdown that is executed ends only logins that it may end. -/
def SparesLogins (s : State) : Prop :=
  s.phase = .exited → s.sdRec.how ≠ 0 →
    s.sdRec.force = SHUT_FORCE ∨
      (s.sdRec.force = SHUT_FORCEMY ∧ ∀ who, LoggedIn s who → who = some s.sdRec.uid) ∨
      ∀ who, ¬ LoggedIn s who

/-- When the loop ends with a shutdown that is not forced, nobody is logged in on a terminal, apart
from the user who may end his own logins. -/
def TerminalsIdle (s : State) (e : Event) : Prop :=
  ∀ env, e = .loop env → loopTest s = false → s.sdRec.how ≠ 0 → s.sdRec.force ≠ SHUT_FORCE →
    ∀ ut ∈ utEntries (s.withEnv env), listsEntry ⟨true, false, true⟩ ut = true →
      s.sdRec.force = SHUT_FORCEMY ∧ ut.uid = some s.sdRec.uid

structure LeavingSafe (s : State) (e : Event) : Prop where
  console : ConsoleSafe s e
  terminals : TerminalsIdle s e

/-! ## Reaping does not leave the loop -/

/-- The loop stands where it stood. -/
def SamePhase (s s' : State) : Prop := s'.phase = s.phase

namespace SamePhase

theorem trans {s'' : State} (h : SamePhase s s') (h' : SamePhase s' s'') : SamePhase s s'' :=
  Eq.trans h' h

theorem withDisplay {g : Display → State → State} (hg : ∀ d s, SamePhase s (g d s)) (i : Id)
    (s : State) : SamePhase s (s.withDisplay i g) := by
  unfold State.withDisplay
  split
  · exact hg _ s
  · rfl

theorem foldl {α : Type} {g : State → α → State} (hg : ∀ s x, SamePhase s (g s x)) (l : List α)
    (s : State) : SamePhase s (l.foldl g s) := by
  induction l generalizing s with
  | nil => rfl
  | cons x l ih => exact (hg s x).trans (ih (g s x))

theorem malloc (s : State) : SamePhase s s.malloc.2 := by
  obtain ⟨env, h⟩ := malloc_env s; rw [h]; rfl

theorem answer (s : State) : SamePhase s s.answer.2 := by
  obtain ⟨env, h⟩ := answer_env s; rw [h]; rfl

theorem fork (s : State) : SamePhase s s.fork.2 := by
  obtain ⟨env, h⟩ := fork_env s; rw [h]; rfl

theorem wakeDisplays (s : State) : SamePhase s (wakeDisplays s) := by
  have hwake (s : State) (i : Id) : SamePhase s (wakeDisplay i s) := by
    refine withDisplay (fun d s => ?_) i s
    split <;> rfl
  exact foldl hwake (s.displays.map Display.id) s

theorem pollUtmp (utp : Utmps) (s : State) : SamePhase s (pollUtmp utp s) := by
  unfold Kdm.pollUtmp
  split
  · dsimp only
    generalize (if utp.state = .dead then { utp with time := 0 } else utp) = utp'
    generalize (utp'.time + if utp'.hadSess = true then TIME_RELOG else TIME_LOG) = ends
    split
    · exact wakeDisplays s
    · rfl
  · rfl

theorem checkUtmp (s : State) : SamePhase s (checkUtmp s) := by
  unfold Kdm.checkUtmp
  split
  · rfl
  · split
    · exact wakeDisplays s
    · split
      · exact pollUtmp _ _
      · exact pollUtmp _ s

theorem checkTTYMode (s : State) : SamePhase s (checkTTYMode s) := by
  unfold Kdm.checkTTYMode switchToTTY
  split
  · rfl
  · dsimp only
    split
    · exact ((malloc s).trans (answer _)).trans (checkUtmp _)
    · exact (malloc s).trans (wakeDisplays _)

theorem abortStartServer (i : Id) (s : State) : SamePhase s (abortStartServer i s) := by
  unfold Kdm.abortStartServer
  split
  · refine withDisplay (fun d s => ?_) i s
    split <;> rfl
  · rfl

theorem startRemoteLogin (i : Id) (s : State) : SamePhase s (startRemoteLogin i s) := by
  unfold Kdm.startRemoteLogin
  dsimp only
  split
  · exact fork s
  · exact fork s

theorem rStopDisplay (i : Id) (z : EndState) (s : State) : SamePhase s (rStopDisplay i z s) := by
  refine (abortStartServer i s).trans (withDisplay (fun d s => ?_) i _)
  split
  · rfl
  · cases z with
    | textMode schedule =>
      cases schedule
      · exact checkTTYMode _
      · rfl
    | remote => exact startRemoteLogin i s
    | _ => rfl

theorem startServerFailed (s : State) : SamePhase s (startServerFailed s) := by
  unfold Kdm.startServerFailed
  split
  · rfl
  · refine withDisplay (fun d s => ?_) _ s
    split
    · rfl
    · exact rStopDisplay _ .remove _

theorem closeCtrl (x : Option Id) (s : State) : SamePhase s (closeCtrl x s) := by
  have hset (f : CtrlRec → CtrlRec) (s : State) : SamePhase s (setCtrl x f s) := by
    cases x <;> rfl
  unfold Kdm.closeCtrl
  split
  · rfl
  · rename_i cr _
    split
    · have hnuke (s : State) : SamePhase s (cr.css.foldl (fun s fd => nukeFd fd s) s) :=
        foldl (g := fun s fd => nukeFd fd s) (fun _ _ => rfl) cr.css s
      refine trans ?_ (hset _ _)
      refine trans ?_ (hnuke _)
      exact hset _ ((s.unregisterInput cr.fd).close cr.fd)
    · rfl

theorem closeSession (i : Id) (s : State) : SamePhase s (closeSession i s) := by
  have hpipe (w : Pipe) (s : State) : SamePhase s (gClosen w i (unregisterPipe w i s)) := by
    have hun : SamePhase s (unregisterPipe w i s) :=
      withDisplay (g := fun d s => s.unregisterInput (d.pipeFd w)) (fun _ _ => rfl) i s
    refine hun.trans (withDisplay (fun d s => ?_) i _)
    split <;> rfl
  exact ((hpipe .pipe s).trans (hpipe .gpipe _)).trans (closeCtrl (some i) _)

theorem restartDisplay (i : Id) (cmd : ServerCmd) (s : State) :
    SamePhase s (restartDisplay i cmd s) := by
  refine withDisplay (fun d s => ?_) i s
  split <;> rfl

theorem exitDisplay (i : Id) (z : EndState) (cmd : ServerCmd) (good : Bool) (s : State) :
    SamePhase s (exitDisplay i z cmd good s) := by
  refine withDisplay (fun d s => ?_) i s
  dsimp only
  generalize (if d.status = .raiser then ServerCmd.keep else cmd) = cmd
  generalize (if d.status = .raiser then true else good) = good
  have hdone : SamePhase s ((sessionDone i s).modifyHist d.name fun he =>
      { he with lastExit := (sessionDone i s).now, goodExit := good }) := rfl
  refine hdone.trans ?_
  generalize ((sessionDone i s).modifyHist d.name _) = s1
  generalize (if s1.sdRec.how ≠ 0 ∧ s1.sdRec.start = TO_INF then EndState.remove else z) = z
  have htry : SamePhase s1 (if d.isLocal then s1 else
      s1.modify i fun d => { d with startTries := d.startTries + 1 }) := by split <;> rfl
  split
  · exact rStopDisplay i _ s1
  · split
    · exact rStopDisplay i .remove s1
    · split
      · exact rStopDisplay i z s1
      · split
        · split
          · exact htry.trans (rStopDisplay i .remove _)
          · exact htry.trans (restartDisplay i _ _)
        · exact restartDisplay i _ _

theorem reapServer (i : Id) (s : State) : SamePhase s (reapServer i s) := by
  refine withDisplay (fun d s => ?_) i _
  cases d.status with
  | zombie =>
    have hVT : SamePhase s (releaseVT i s) := by
      refine withDisplay (fun d s => ?_) i s
      split
      · cases d.follower <;> rfl
      · rfl
    exact hVT.trans (rStopDisplay i _ _)
  | running =>
    dsimp only
    split
    · exact startServerFailed s
    · rfl
  | _ => rfl

theorem reapSession (i : Id) (status : WaitStatus) (s : State) :
    SamePhase s (reapSession i status s) := by
  have hclose : SamePhase s (Kdm.closeSession i (s.setPid i (-1))) := closeSession i _
  exact hclose.trans (withDisplay (fun d s => exitDisplay i _ _ _ s) i _)

theorem reapChild (pid : Int) (status : WaitStatus) (s : State) :
    SamePhase s (reapChild pid status s) := by
  unfold Kdm.reapChild
  split
  · exact reapSession _ status s
  · split
    · exact reapServer _ s
    · rfl

end SamePhase

/-! ## The end of the loop -/

/-- **The loop is left at its test only.** -/
theorem exited_step (hs : step e s = some s') (hx : s'.phase = .exited) :
    ∃ env, e = .loop env ∧ loopTest s = false ∧ s' = (s.withEnv env).goto .exited := by
  unfold step at hs
  split at hs
  · cases hs
  · cases e with
    | loop env =>
      dsimp only at hs
      split at hs
      · cases hs
        unfold loopHead at hx ⊢
        by_cases ht : loopTest (s.withEnv env) = true
        · rw [if_pos ht] at hx
          split at hx <;> cases hx
        · rw [if_neg ht]
          exact ⟨env, rfl, Bool.eq_false_of_not_eq_true ht, rfl⟩
      · cases hs
    | signal sig env =>
      dsimp only at hs
      split at hs
      · cases hs
        cases sig with
        | SIGUSR1 =>
          unfold handleSignal at hx
          dsimp only at hx
          split at hx <;> cases hx
        | _ => cases hx
      · cases hs
    | timers env =>
      dsimp only at hs
      split at hs
      · cases hs
        change ite _ _ _ = _ at hx
        split at hx <;> cases hx
      · cases hs
    | kick env | shutdown env | select now | childrenDone | rescan env | packet fd p env | idle =>
      dsimp only at hs
      split at hs
      · cases hs; cases hx
      · cases hs
    | child pid status env =>
      dsimp only at hs
      split at hs
      · rename_i hc
        cases hs
        rw [show _ = _ from SamePhase.reapChild pid status (s.withEnv env)] at hx
        exact absurd (hc.1.symm.trans hx) nofun
      · cases hs
    | accept y env | dpipe i env | gpipe i env =>
      dsimp only at hs
      split at hs
      · split at hs
        · cases hs; cases hx
        · cases hs
      · cases hs
    | hangup y fd =>
      dsimp only at hs
      split at hs
      · split at hs
        · cases hs
          change ite _ _ _ = _ at hx
          split at hx <;> cases hx
        · cases hs
      · cases hs
    | command y fd line env =>
      dsimp only at hs
      split at hs
      · split at hs
        · cases hs
          change ite _ _ _ = _ at hx
          split at hx <;> cases hx
        · cases hs
      · cases hs

theorem Booting.frame {x : Act} {a b : Abs} (hx : Booting x a) (hs : Step x a b) :
    b.sd = a.sd ∧ b.now = a.now ∧ b.stopping = a.stopping := by
  rcases hx with hx | ⟨i, rfl, -⟩
  · exact hs.ordinary_frame hx
  · obtain ⟨v, -, -, rfl⟩ := hs; exact ⟨rfl, rfl, rfl⟩

/-- No shutdown is requested while `main` starts. -/
theorem Starts.no_shutdown : Starts fun a => a.sd.how = 0 where
  blank := rfl
  boot hx hs h := by rw [(hx.frame hs).1]; exact h
  signal _ _ _ h := h
  clock _ _ h := h

/-- The last step of a run that has left the loop with a shutdown to execute. -/
theorem ReachableBy.exited (hr : ReachableBy C s) (hx : s.phase = .exited) (hhow : s.sdRec.how ≠ 0) :
    ∃ s0 env, ReachableBy C s0 ∧ C s0 (.loop env) ∧ loopTest s0 = false ∧
      s = (s0.withEnv env).goto .exited := by
  obtain ⟨h, hr⟩ := hr
  cases hr with
  | start h0 => exact absurd (Starts.no_shutdown.initial h0) hhow
  | next hr hc hs =>
    obtain ⟨env, rfl, ht, rfl⟩ := exited_step hs hx
    exact ⟨_, env, ⟨_, hr⟩, hc, ht, rfl⟩

/-- The loop does not end while anybody is logged in on a display. -/
theorem logged_out (ho : Orderly (abs s)) (hk : Keys (abs s)) (ht : loopTest s = false) {d : Display}
    (hd : d ∈ s.displays) : d.userSess < 0 ∧ d.status ≠ .remoteLogin := by
  unfold loopTest at ht
  rw [Bool.or_eq_false_iff] at ht
  have hidle : d.status.idle = true ∧ d.status ≠ .remoteLogin := by
    by_cases hstop : s.stopping = true
    · rw [if_pos hstop] at ht
      have hrun := List.any_eq_false.mp ht.2 d hd
      cases hst : d.status <;> rw [hst] at hrun <;> first
        | exact ⟨rfl, by decide⟩
        | exact absurd rfl hrun
    · rw [if_neg hstop] at ht
      have hnil : s.displays = [] := by simpa [anyDisplaysLeft] using ht.2
      rw [hnil] at hd
      cases hd
  refine ⟨?_, hidle.2⟩
  have hg := ho.good d.id _ (abs_disp (find_of_mem hk hd))
  by_contra hu
  exact hg.user (not_lt.mp hu) (hg.idle hidle.1)

namespace Sample

/-- The greeter's message for a halt, scheduled for when all users have logged out. -/
def haltWhenIdle : List UInt8 :=
  [101, 0, 0, 0, 2, 0, 0, 0, 0, 0, 0, 0, 255, 255, 255, 127, 0, 0, 0, 0, 0, 0, 0, 0, 0, 0, 0, 0]

/-- The greeter of display 0 schedules a halt, the display is stopped and the loop ends while
`utmp` is as given. -/
def haltScheduled (utmp : Option (Int × List UtEntry)) : List Event :=
  pass { dpyConf := [.loaded dpyConf] } [100] 51 ++ [.signal .SIGUSR1 { sys := [5, 6, 101] }] ++
  pass {} [] 52 ++ [.gpipe 0 { rx := haltWhenIdle }] ++ pass {} [] 53 ++
  [.signal .SIGCHLD {}, .child 101 ⟨15, 0, 0⟩ {}, .child 100 ⟨0, 0, 0⟩ {}, .childrenDone, .rescan {},
    .loop { utmp := utmp }]

/-- User 1000 works on the first console. -/
def consoleLogin : UtEntry := ⟨"tty1", "", "user", true, 40, true, some 1000⟩

end Sample

/-- Greeters only send `G_Shutdown`, and the loop finds no utmp file at its test. -/
def noTerminals (s : State) : Event → Bool
  | .gpipe _ env => (gRecvCmd (s.withEnv env)).1 == some G_Shutdown
  | .loop env => env.utmp == none
  | _ => true

theorem LeavingSafe.of_test (h : noTerminals s e = true) : LeavingSafe s e where
  console := by
    rintro i env rfl hg
    unfold noTerminals at h
    rw [beq_iff_eq, hg] at h
    cases h
  terminals := by
    rintro env rfl _ _ _ ut hut
    unfold noTerminals at h
    rw [beq_iff_eq] at h
    have hnil : utEntries (s.withEnv env) = [] := by
      unfold utEntries
      rw [show (s.withEnv env).env.utmp = none from h]
    rw [hnil] at hut
    cases hut

end Kdm
