import Kdm.Safety.Authority
import Kdm.Safety.Leaving

/-!
# Scheduled shutdowns and the clock

A request names the time at which the machine may be shut down, and the history variable `given` of
a record keeps it, because the loop overwrites `start` when the time has come.  The loop ends when
`stopping` is set and no display is left, whatever `sdRec` holds by then: termination by a signal, a
later request and a display list that runs empty all end it early.

Principal result: `reachable_onTime`, no shutdown is executed before its start time in the runs in
which none of these meets a shutdown that lies ahead.
-/

namespace Kdm

open Runs

variable {s s' : State} {e : Event} {x : Act} {a b : Abs} {i : Id} {v w : View} {r : SdRec}

/-! ## The invariant -/

/-- The start time that the request gave is not in the future. -/
def Abs.due (a : Abs) : Prop := a.sd.how ≠ 0 → a.sd.given ≤ a.now

/-- The record remembers its start time until it is reached, nothing is stopped for a shutdown that
lies ahead, and a display keeps requests for "at logout" only. -/
structure Timely (a : Abs) : Prop where
  clock : 0 ≤ a.now
  reached : a.sd.start = TO_INF → a.due
  ahead : a.sd.how ≠ 0 → a.sd.start ≠ TO_INF → a.sd.given = a.sd.start
  stopping : a.stopping = true → a.due
  pending : ∀ i v, a.disp i = some v → v.sd.how ≠ 0 → v.sd.start = 0 ∧ v.sd.given = 0

/-- A request with a start time of its own, which is reached if the daemon is stopping already. -/
def SdRec.punctual (r : SdRec) (stopping : Bool) (now : Int) : Prop :=
  r.how ≠ 0 → r.start ≠ TO_INF ∧ (stopping = true → r.start ≤ now)

/-- The daemon stops for a shutdown that is due, and requests are punctual. -/
def Punctual : Act → Abs → Prop
  | .stopAll, a => a.due
  | .putSd r, a => r.given = r.start ∧ r.punctual a.stopping a.now
  | .putLocalSd _ r, _ => r.start = 0 ∧ r.given = 0
  | _, _ => True

/-- Stored requests of the displays. -/
theorem Timely.pending_step (h : Timely a) (hp : Punctual x a) (hs : Step x a b)
    (hw : b.disp i = some w) (hhow : w.sd.how ≠ 0) : w.sd.start = 0 ∧ w.sd.given = 0 := by
  by_cases hst : x.storesSd = false
  · rcases hs.same_sd hst hw with hz | ⟨u, hu, hsd⟩
    · exact absurd (congrArg SdRec.how hz) hhow
    · rw [hsd] at hhow ⊢
      exact h.pending i u hu hhow
  · have hset {j : Id} {u : View} (hu : (a.set j u).disp i = some w)
        (huok : u.sd.how ≠ 0 → u.sd.start = 0 ∧ u.sd.given = 0) : w.sd.start = 0 ∧ w.sd.given = 0 := by
      rw [Abs.set_disp] at hu
      split at hu
      · cases hu; exact huok hhow
      · exact h.pending i w hu hhow
    cases x with
    | acceptSd j =>
      obtain ⟨v, hv, -, rfl⟩ := hs
      exact hset (j := j) hw fun hne => absurd rfl hne
    | dropSd j =>
      obtain ⟨v, r, hv, hr, rfl⟩ := hs
      exact hset (j := j) hw fun hne => absurd hr hne
    | putLocalSd j r =>
      obtain ⟨v, hv, rfl⟩ := hs
      exact hset (j := j) hw fun _ => hp
    | _ => exact absurd rfl hst

/-- **What a punctual action preserves.** -/
theorem Timely.step (h : Timely a) (hp : Punctual x a) (hs : Step x a b) : Timely b := by
  have hpend : ∀ i w, b.disp i = some w → w.sd.how ≠ 0 → w.sd.start = 0 ∧ w.sd.given = 0 :=
    fun i w hw hhow => h.pending_step hp hs hw hhow
  by_cases hx : x.schedules = false
  · obtain ⟨h1, h2, h3⟩ := hs.same_schedule hx
    refine ⟨h2 ▸ h.clock, fun hst => ?_, fun hhow hst => ?_, fun hst => ?_, hpend⟩
    · unfold Abs.due; rw [h1] at hst ⊢; rw [h2]; exact h.reached hst
    · rw [h1] at hhow hst ⊢; exact h.ahead hhow hst
    · unfold Abs.due; rw [h1, h2]; exact h.stopping (h3 ▸ hst)
  · cases x with
    | cancelSd =>
      cases hs
      exact ⟨h.clock, fun _ hhow => absurd rfl hhow, fun hhow => absurd rfl hhow, nofun, hpend⟩
    | reachSd =>
      obtain ⟨hhow, hdue, rfl⟩ := hs
      have hgiven : a.sd.given ≤ a.now := by
        by_cases hst : a.sd.start = TO_INF
        · exact h.reached hst hhow
        · rw [h.ahead hhow hst]; exact hdue.resolve_left hst
      exact ⟨h.clock, fun _ _ => hgiven, fun _ hst => absurd rfl hst, fun _ _ => hgiven, hpend⟩
    | expireSd => cases hs; exact ⟨h.clock, h.reached, h.ahead, h.stopping, hpend⟩
    | stopAll => cases hs; exact ⟨h.clock, h.reached, h.ahead, fun _ => hp, hpend⟩
    | putSd r =>
      cases hs
      obtain ⟨hgiven, hpunct⟩ := hp
      refine ⟨h.clock, fun hst hhow => absurd hst (hpunct hhow).1, fun _ _ => hgiven,
        fun hstop hhow => ?_, hpend⟩
      exact hgiven.trans_le ((hpunct hhow).2 hstop)
    | acceptSd j =>
      obtain ⟨v, hv, hhow, rfl⟩ := hs
      obtain ⟨hstart, hgiven⟩ := h.pending j v hv hhow
      have hdue : v.sd.given ≤ a.now := hgiven.trans_le h.clock
      exact ⟨h.clock, fun _ _ => hdue, fun _ _ => hgiven.trans hstart.symm, fun _ _ => hdue, hpend⟩
    | tick n =>
      obtain ⟨hle, -, rfl⟩ := hs
      exact ⟨h.clock.trans hle, fun hst hhow => (h.reached hst hhow).trans hle, h.ahead,
        fun hst hhow => (h.stopping hst hhow).trans hle, hpend⟩
    | _ => exact absurd rfl hx

/-- What `main` establishes: nobody has asked for a shutdown. -/
structure Unasked (a : Abs) : Prop where
  global : a.sd.how = 0
  stopping : a.stopping = false
  clock : 0 ≤ a.now
  displays : ∀ i v, a.disp i = some v → v.sd.how = 0

theorem Starts.unasked : Starts Unasked where
  blank := ⟨rfl, rfl, le_rfl, fun _ _ h => nomatch h⟩
  boot hx hs h := by
    obtain ⟨h1, h2, h3⟩ := hx.frame hs
    exact ⟨h1 ▸ h.global, h3 ▸ h.stopping, h2 ▸ h.clock,
      fun i w hw => hx.no_record hs h.displays hw⟩
  signal _ _ _ h := ⟨h.global, h.stopping, h.clock, h.displays⟩
  clock hn _ h := ⟨h.global, h.stopping, hn, h.displays⟩

theorem Unasked.timely (h : Unasked a) : Timely a where
  clock := h.clock
  reached _ hhow := absurd h.global hhow
  ahead hhow := absurd h.global hhow
  stopping _ hhow := absurd h.global hhow
  pending i v hv hhow := absurd (h.displays i v hv) hhow

/-! ## Requests on the control sockets -/

section

variable {onDisplay : Bool} {how : Fin 4} {os : Option String} {args : List String}
  {od : Option Display}

theorem parseMode_given (h : parseMode onDisplay how os args s = .ok r) : r.given = r.start := by
  unfold parseMode at h
  split at h
  · cases h
  · split at h
    · exact parseTimeout_given h
    · dsimp only at h
      repeat' split at h
      all_goals first
        | (cases h; done)
        | (cases h; rfl)

theorem parseBootOption_given (h : parseBootOption onDisplay how args s = .ok r) :
    r.given = r.start := by
  unfold parseBootOption at h
  split at h
  · cases h
  · split at h
    · split at h
      · cases h
      · cases h
      · cases h
      · exact parseMode_given h
    · exact parseMode_given h

theorem parseCancel_given (h : parseCancel onDisplay args = .ok r) : r.given = r.start := by
  unfold parseCancel at h
  repeat' split at h
  all_goals first
    | (cases h; done)
    | (cases h; rfl)

/-- A request remembers the start time it names. -/
theorem parseShutdown_given (h : parseShutdown od args s = .ok r) : r.given = r.start := by
  unfold parseShutdown at h
  split at h
  · cases h
  · split at h
    · cases h
    · split at h
      · exact parseCancel_given h
      · split at h
        · exact parseBootOption_given h
        · split at h
          · exact parseBootOption_given h
          · cases h

end

/-! ## Runs -/

/-- A shutdown that lies ahead is not executed early: the daemon is not told to terminate before
it is due, requests are punctual, no `G_Shutdown` is broken off, and the displays do not run out
before. -/
structure ScheduleSafe (s : State) (e : Event) : Prop where
  signal : ∀ sig env, e = .signal sig env → sig = .SIGTERM ∨ sig = .SIGINT → (abs s).due
  greeter : ∀ i env, e = .gpipe i env → (gRecvCmd (s.withEnv env)).1 = some G_Shutdown →
    ¬ BreaksOff (greeterCommand i) (s.withEnv env) ∧
      ∀ r : SdRec, r.how = bits2 (int32 ((gRecvCmd (s.withEnv env)).2.env.rx.take 4)) →
        r.start = int32 (((gRecvCmd (s.withEnv env)).2.env.rx.drop 4).take 4) →
        r.punctual s.stopping s.now
  command : ∀ y fd line env d args r, e = .command y fd line env → socketOf y s = some d →
    commandWords line = "shutdown" :: args → parseShutdown d args (s.withEnv env) = .ok r →
    r.punctual s.stopping s.now
  leaves : ∀ env, e = .loop env → loopTest s = false → s.stopping = false → (abs s).due

theorem Emits.punctual (hc : ScheduleSafe s e) (ht : Timely a) (hx : Emits s e x a) :
    Punctual x a := by
  cases hx with
  | ordinary hx => cases x <;> trivial
  | timed _ hx => cases x <;> trivial
  | stopDue hst => exact ht.reached hst
  | stopSignal hsig hsd hnow =>
    have hdue : a.due := by
      unfold Abs.due
      rw [hsd, hnow]
      exact hc.signal _ _ rfl hsig
    exact hdue
  | greeterSd hg h1 h2 h3 => exact ⟨h3, (hc.greeter _ _ rfl hg).2 _ h1 h2⟩
  | brokenSd hg hb => exact absurd hb (hc.greeter _ _ rfl hg).1
  | putLocal hsock hargs hp hstart _ => exact ⟨hstart, (parseShutdown_given hp).trans hstart⟩
  | putSd hsock hargs hp _ _ =>
    have hgiven := parseShutdown_given hp
    have hpunct := hc.command _ _ _ _ _ _ _ rfl hsock hargs hp
    exact ⟨hgiven, hpunct⟩
  | _ => trivial

/-- No shutdown is executed before its start time. -/
def OnTime (s : State) : Prop := s.phase = .exited → s.sdRec.how ≠ 0 → s.sdRec.given ≤ s.now

/-- **Scheduled shutdowns wait.** -/
theorem reachable_onTime (hr : ReachableBy ScheduleSafe s) : OnTime s := by
  intro hx hhow
  obtain ⟨s0, env, hr0, hc, ht, rfl⟩ := ReachableBy.exited hr hx hhow
  obtain ⟨-, htimely⟩ := invariant_from (I := Timely)
    (fun _ h0 => ⟨Starts.keys.initial h0, (Starts.unasked.initial h0).timely⟩)
    (fun _ _ _ _ hc _ _ _ hx hs _ ha => ha.step (hx.punctual hc ha) hs) hr0
  by_cases hstop : s0.stopping = true
  · exact htimely.stopping hstop hhow
  · exact hc.leaves env rfl ht (Bool.eq_false_of_not_eq_true hstop) hhow

namespace Sample

/-- The greeter's message for a forced halt at time 200. -/
def haltAt200 : List UInt8 :=
  [101, 0, 0, 0, 2, 0, 0, 0, 200, 0, 0, 0, 200, 0, 0, 0, 2, 0, 0, 0, 0, 0, 0, 0, 0, 0, 0, 0]

/-- The session and the server of display 0 end, and the loop is left. -/
def gone : List Event :=
  [.signal .SIGCHLD {}, .child 101 ⟨15, 0, 0⟩ {}, .child 100 ⟨0, 0, 0⟩ {}, .childrenDone, .rescan {},
    .loop {}]

/-- A halt at time 200 is requested at time 52. -/
def haltRequested : List Event :=
  pass { dpyConf := [.loaded dpyConf] } [100] 51 ++ [.signal .SIGUSR1 { sys := [5, 6, 101] }] ++
  pass {} [] 52 ++ [.gpipe 0 { rx := haltAt200 }]

end Sample

/-- The daemon is told to terminate at time 53 and executes the shutdown of time 200. -/
theorem not_onTime : ∃ s, Reachable s ∧ ¬ OnTime s := by
  obtain ⟨s, hs, hp⟩ := reachable_of_run (C := fun _ _ => True) anyEvent
    (Sample.bootEnv (Sample.dmConf [":0"])) 50
    (Sample.haltRequested ++ Sample.pass {} [] 53 ++ [.signal .SIGTERM {}] ++ Sample.pass {} [] 54 ++
      Sample.gone)
    (fun s => s.phase == .exited && s.sdRec.how != 0 && decide (s.now < s.sdRec.given))
    (fun _ _ _ => trivial) (by decide)
  rw [Bool.and_eq_true, Bool.and_eq_true, beq_iff_eq, bne_iff_ne, decide_eq_true_eq] at hp
  exact ⟨s, hs, fun h => absurd (h hp.1.1 hp.1.2) (not_le.mpr hp.2)⟩

def arrives : EStateM.Result Unit State Unit → Bool
  | .ok _ _ => true
  | .error _ _ => false

/-- No signal to terminate and no command; a greeter's message arrives whole while the daemon is not
stopping, and the loop is left when it is. -/
def undisturbed (s : State) : Event → Bool
  | .signal sig _ => sig != .SIGTERM && sig != .SIGINT
  | .gpipe i env =>
    (gRecvCmd (s.withEnv env)).1.any fun cmd =>
      arrives (greeterCommand i cmd (gRecvCmd (s.withEnv env)).2) &&
        int32 (((gRecvCmd (s.withEnv env)).2.env.rx.drop 4).take 4) != TO_INF && !s.stopping
  | .command _ _ _ _ => false
  | .loop _ => loopTest s || s.stopping
  | _ => true

theorem ScheduleSafe.of_test (h : undisturbed s e = true) : ScheduleSafe s e where
  signal := by
    rintro sig env rfl hsig
    rcases hsig with rfl | rfl <;> cases h
  greeter := by
    rintro i env rfl hg
    obtain ⟨cmd, hcmd, h⟩ := (Option.any_eq_true _ _).mp h
    simp only [Bool.and_eq_true, bne_iff_ne, Bool.not_eq_true'] at h
    obtain ⟨⟨hok, hstart⟩, hstop⟩ := h
    refine ⟨?_, fun r _ hrs _ => ⟨by rw [hrs]; exact hstart, by rw [hstop]; exact nofun⟩⟩
    rintro ⟨cmd', s1, err, s2, hr, hbreak⟩
    rw [hr] at hcmd hok
    cases hcmd
    rw [hbreak] at hok
    cases hok
  command := by rintro y fd line env d args r rfl; cases h
  leaves := by
    rintro env rfl ht hstop
    unfold undisturbed at h
    rw [ht, hstop] at h
    cases h

/-- The halt of time 200 is executed after time 200. -/
theorem onTime_halt : ∃ s : State, s.phase = .exited ∧ s.sdRec.given = 200 ∧ OnTime s := by
  obtain ⟨s, hs, hp⟩ := reachable_of_run (C := ScheduleSafe) undisturbed
    (Sample.bootEnv (Sample.dmConf [":0"])) 50
    (Sample.haltRequested ++ Sample.pass {} [] 200 ++ [.idle] ++ Sample.pass {} [] 201 ++ Sample.gone)
    (fun s => s.phase == .exited && s.sdRec.given == 200)
    (fun _ _ => ScheduleSafe.of_test) (by decide)
  rw [Bool.and_eq_true, beq_iff_eq, beq_iff_eq] at hp
  exact ⟨s, hp.1, hp.2, reachable_onTime hs⟩

end Kdm
