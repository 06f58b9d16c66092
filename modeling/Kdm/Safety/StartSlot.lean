import Kdm.Abstract.Slot
import Kdm.Refine.Reach

/-!
# Starting one X server at a time

`startingServer`, `serverTimeout` and `serverStatus` together say which display's X server is
being started.  In the runs that meet `StartSafe` a start step is only ever scheduled for the
display that is being started (`reachable_startOwned`), and in the runs that meet `SlotSafe` the slot is
given up whenever the start it was taken for is over (`reachable_slotLive`).  Each condition leaves out the
circumstances in which the code breaks the property, and a concrete run shows it broken there.
-/

namespace Kdm

variable {s : State} {e : Event} {x : Act} {a : Abs}

/-! ## A scheduled step belongs to the display that is being started -/

/-- A start step is only scheduled for a display in the list that is running and being started,
and no start step was ever taken with `startingServer == NULL`. -/
structure StartOwned (s : State) : Prop where
  owner : s.serverTimeout ≠ TO_INF → ∃ d ∈ s.displays, s.startingServer = some d.id ∧
    d.status = .running ∧ d.serverStatus ∈ [.starting, .terminated, .killed, .pausing]
  noFault : s.fault = none

/-- A `D_XConnOk` comes from the display whose server is being started, or no start step is
scheduled. -/
def OwnConnOk (s : State) (e : Event) : Prop :=
  ∀ i env, e = .dpipe i env → (gRecvCmd (s.withEnv env)).1 = some D_XConnOk →
    s.startingServer = none ∨ s.startingServer = some i ∨ s.serverTimeout = TO_INF

structure StartSafe (s : State) (e : Event) : Prop where
  console : ConsoleSafe s e
  connOk : OwnConnOk s e

theorem Emits.ownStart (hc : OwnConnOk s e) (h : Emits s e x a) : OwnStart x a := by
  cases h with
  | ordinary hx => cases x <;> trivial
  | timed _ hx => cases x <;> trivial
  | xconnOk hr => exact hc _ _ rfl hr
  | _ => trivial

theorem Starts.owned : Starts fun a => Orderly a ∧ Owned a := by
  refine Starts.orderly.and ⟨fun h => absurd rfl h, rfl⟩ ?_ ?_ ?_
  · intro x a b hx hs ho h
    refine h.step ho ?_ hs
    rcases hx with hx | ⟨i, rfl, -⟩
    · cases x <;> trivial
    · trivial
  · exact fun _ _ _ _ h => ⟨h.timer, h.fault⟩
  · exact fun _ _ _ h => ⟨h.timer, h.fault⟩

/-- **Server-start ownership.** -/
theorem reachable_startOwned (h : ReachableBy StartSafe s) : StartOwned s := by
  obtain ⟨-, ho, hown⟩ := orderly_invariant (fun _ _ hc => hc.console) Starts.owned
    (fun _ _ _ _ _ hc _ _ _ hx hs ho hi => hi.step ho (hx.ownStart hc.connOk) hs) h
  refine ⟨fun ht => ?_, hown.fault⟩
  obtain ⟨i, v, hsl, hv, hst, hrun, -⟩ := hown.holder ho ht
  obtain ⟨d, hd, rfl⟩ := find_of_disp hv
  refine ⟨d, State.find_mem hd, ?_, hrun, ?_⟩
  · rw [State.find_id hd]
    exact hsl
  · revert hst
    unfold viewOf
    dsimp only
    cases d.serverStatus <;> simp [ServerStatus.inStart]

namespace Sample

def twoDisplays : Env := { dpyConf := [.loaded dpyConf, .loaded dpyConf] }

/-- Display 1 and then display 0 come up. -/
def bothUp : List Event :=
  pass twoDisplays [100] 51 ++ [.signal .SIGUSR1 { sys := [5, 6, 101] }] ++
  pass {} [] 52 ++ [.dpipe 1 { rx := [6, 0, 0, 0] }] ++
  pass {} [102] 53 ++ [.signal .SIGUSR1 { sys := [7, 8, 103] }] ++
  pass {} [] 54 ++ [.dpipe 0 { rx := [6, 0, 0, 0] }]

/-- Both sessions and one server end; display 0 starts a session on the server it kept while the
new server of display 1 is being started, and reports its connection. -/
def strayConnOk : List Event :=
  bothUp ++ pass {} [] 300 ++
  [.signal .SIGCHLD {}, .child 101 ⟨0, 0, 33⟩ {}, .child 103 ⟨0, 0, 30⟩ {}, .child 100 ⟨0, 0, 0⟩ {},
    .childrenDone, .rescan {}] ++
  pass {} [104, 9, 10, 105] 301 ++ [.dpipe 0 { rx := [6, 0, 0, 0] }]

end Sample

/-- The report of a session on a kept server clears the start of another display. -/
theorem not_startOwned : ∃ s, Reachable s ∧ ¬ StartOwned s := by
  obtain ⟨s, hs, hp⟩ := reachable_of_run (C := fun _ _ => True) anyEvent
    (Sample.bootEnv (Sample.dmConf [":0", ":1"])) 50 Sample.strayConnOk
    (fun s => s.serverTimeout != TO_INF && s.startingServer == none)
    (fun _ _ _ => trivial) (by decide)
  refine ⟨s, hs, fun h => ?_⟩
  simp only [Bool.and_eq_true, bne_iff_ne, beq_iff_eq] at hp
  obtain ⟨d, -, hd, -⟩ := h.owner hp.1
  rw [hp.2] at hd
  cases hd

theorem StartSafe.of_loop (h : e.ofLoop = true) : StartSafe s e where
  console := .of_loop h
  connOk := by rintro i env rfl; cases h

/-- A server is being started. -/
theorem startOwned_starting : ∃ s, s.serverTimeout ≠ TO_INF ∧ StartOwned s := by
  obtain ⟨s, hs, hp⟩ := reachable_of_run (C := StartSafe) (fun _ e => e.ofLoop)
    (Sample.bootEnv (Sample.dmConf [":0", ":1"])) 50 (Sample.pass Sample.twoDisplays [100] 51)
    (fun s => s.serverTimeout != TO_INF)
    (fun _ _ => StartSafe.of_loop) (by decide)
  exact ⟨s, by simpa using hp, reachable_startOwned hs⟩

/-! ## The slot is given up when the start is over -/

/-- The display that holds the slot is in the list and running, and either a start step is
scheduled or its session process is there to report that it is connected. -/
def SlotLive (s : State) : Prop :=
  ∀ i, s.startingServer = some i → ∃ d ∈ s.displays, d.id = i ∧ d.status = .running ∧
    (s.serverTimeout ≠ TO_INF ∨ d.pid ≠ -1)

/-- No time that a start step may be scheduled for is `TO_INF`. -/
def NoClash (s : State) : Prop :=
  10 + s.now ≠ TO_INF ∧
    ∀ d ∈ s.displays, d.conf.serverTimeout + s.now ≠ TO_INF ∧ d.conf.openDelay + s.now ≠ TO_INF

/-- The session of the display that holds the slot neither ends in a way that starts the display
again nor is made a raiser nor cannot be forked. -/
structure SlotSafe (s : State) (e : Event) : Prop where
  console : ConsoleSafe s e
  exit : ∀ pid status env d, e = .child pid status env → findDisplayByPid s pid = some d →
    s.startingServer = some d.id →
    ¬ StartsAgain d (exitArgs d (wcFromWait status)).1 (exitArgs d (wcFromWait status)).2.1 s
  raise : ∀ y fd line env d i dd, e = .command y fd line env → socketOf y s = some d →
    Raises d (commandWords line) s i → s.startingServer = some i → s.find i = some dd → dd.pid = -1
  fork : ∀ env i d, e = .signal .SIGUSR1 env → s.startingServer = some i → s.find i = some d →
    ¬ ForkFails i d (s.withEnv env)
  clash : e.startsServer = true → NoClash s

theorem NoClash.timeouts (h : NoClash s) (hclock : s.now < TO_INF) (hab : SameTimeouts (abs s) a)
    {i : Id} {v : View} (hv : a.disp i = some v) :
    v.serverTimeout + a.now ≠ TO_INF ∧ v.openDelay + a.now ≠ TO_INF ∧ 10 + a.now ≠ TO_INF := by
  rw [show a.now = s.now from hab.1]
  rcases hab.2 i v hv with ⟨ht, ho⟩ | ⟨w, hw, ht, ho⟩
  · rw [ht, ho]
    exact ⟨by omega, by omega, h.1⟩
  · obtain ⟨d, hd, rfl⟩ := find_of_disp hw
    rw [ht, ho]
    exact ⟨(h.2 d (State.find_mem hd)).1, (h.2 d (State.find_mem hd)).2, h.1⟩

theorem Emits.keepsStart (hc : SlotSafe s e) (hclock : s.now < TO_INF) (h : Emits s e x a) :
    KeepsStart x a := by
  cases h with
  | ordinary hx => cases x <;> trivial
  | timed he hx hab =>
    cases x with
    | serverStart i pid => exact fun v hv => ((hc.clash he).timeouts hclock hab hv).1
    | retry i lost => exact fun v hv => ((hc.clash he).timeouts hclock hab hv).2.1
    | escalate i =>
      intro v hv
      obtain ⟨h1, -, h2⟩ := (hc.clash he).timeouts hclock hab hv
      exact ⟨h1, h2⟩
    | _ => exact Bool.noConfusion hx
  | restart hd hagain hslot =>
    intro hsl
    exact hc.exit _ _ _ _ rfl hd (hslot.symm.trans hsl) hagain
  | raise hsock hr =>
    intro hsl v hv
    obtain ⟨d, hd, rfl⟩ := find_of_disp hv
    exact hc.raise _ _ _ _ _ _ d rfl hsock hr hsl hd
  | readyFails hs hd hf hslot =>
    intro _
    exact hc.fork _ _ _ rfl hs hd hf
  | _ => trivial

theorem Starts.held : Starts fun a => Orderly a ∧ Held a := by
  refine Starts.orderly.and ⟨fun _ h => nomatch h⟩ ?_ ?_ ?_
  · intro x a b hx hs ho h
    refine h.step ho ?_ hs
    rcases hx with hx | ⟨i, rfl, -⟩
    · cases x <;> trivial
    · trivial
  · exact fun _ _ _ _ h => ⟨h.holder⟩
  · exact fun _ _ _ h => ⟨h.holder⟩

/-- **The slot is never leaked.** -/
theorem reachable_slotLive (h : ReachableBy SlotSafe s) : SlotLive s := by
  obtain ⟨-, -, hheld⟩ := orderly_invariant (fun _ _ hc => hc.console) Starts.held
    (fun _ _ _ ho _ hc _ _ _ hx hs hoa hi => hi.step hoa (hx.keepsStart hc ho.clock) hs) h
  intro i hi
  obtain ⟨v, hv, hrun, hlive⟩ := hheld.holder i hi
  obtain ⟨d, hd, rfl⟩ := find_of_disp hv
  exact ⟨d, State.find_mem hd, State.find_id hd, hrun, hlive.imp (·.1) id⟩

/-- The session of display 0 ends before it is connected, with an exit status that asks for a new
session: the slot stays with the display, which then waits for the slot. -/
theorem not_slotLive : ∃ s, Reachable s ∧ ¬ SlotLive s := by
  obtain ⟨s, hs, hp⟩ := reachable_of_run (C := fun _ _ => True) anyEvent
    (Sample.bootEnv (Sample.dmConf [":0"])) 50
    (Sample.pass { dpyConf := [.loaded Sample.dpyConf] } [100] 51 ++
      [.signal .SIGUSR1 { sys := [5, 6, 101] }] ++ Sample.pass {} [] 52 ++
      [.signal .SIGCHLD {}, .child 101 ⟨0, 0, 30⟩ {}, .childrenDone, .rescan {}])
    (fun s => s.startingServer == some 0 && s.displays.all fun d => d.status == .notRunning)
    (fun _ _ _ => trivial) (by decide)
  refine ⟨s, hs, fun h => ?_⟩
  simp only [Bool.and_eq_true, beq_iff_eq, List.all_eq_true] at hp
  obtain ⟨d, hd, -, hrun, -⟩ := h 0 hp.1
  rw [hp.2 d hd] at hrun
  cases hrun

theorem SlotSafe.of_loop (h : e.ofLoop = true) (hs : NoClash s) : SlotSafe s e where
  console := .of_loop h
  exit := by rintro pid status env d rfl; cases h
  raise := by rintro y fd line env d i dd rfl; cases h
  fork := by rintro env i d rfl; cases h
  clash _ := hs

instance : Decidable (NoClash s) := by unfold NoClash; infer_instance

/-- A display holds the slot. -/
theorem slotLive_starting : ∃ s, s.startingServer ≠ none ∧ SlotLive s := by
  obtain ⟨s, hs, hp⟩ := reachable_of_run (C := SlotSafe)
    (fun s e => e.ofLoop && decide (NoClash s))
    (Sample.bootEnv (Sample.dmConf [":0"])) 50
    (Sample.pass { dpyConf := [.loaded Sample.dpyConf] } [100] 51)
    (fun s => s.startingServer != none)
    (fun s e h => by
      rw [Bool.and_eq_true, decide_eq_true_eq] at h
      exact SlotSafe.of_loop h.1 h.2) (by decide)
  exact ⟨s, by simpa using hp, reachable_slotLive hs⟩

end Kdm
