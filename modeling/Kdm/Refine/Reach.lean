import Kdm.Abstract.Orderly
import Kdm.Refine.Step

/-!
# Invariants of the reachable states

An invariant of the model holds of every reachable state of the daemon when `main` establishes
it (`Starts`) and the actions that a step emits keep it.  Two rules state this: `invariant` for
all runs, and `orderly_invariant` for the runs in which console mode never takes a display that
awaits its X server, whose states are moreover `Orderly`.
-/

namespace Kdm

open Runs

variable {s s' : State} {e : Event} {C : State → Event → Prop} {I : Abs → Prop}

/-! ## Start-up -/

/-- The actions before the loop is entered: no display has a server yet. -/
def Booting (x : Act) (a : Abs) : Prop :=
  x.ordinary = true ∨ ∃ i, x = .makeReserve i ∧ ∀ v, a.disp i = some v → v.serverPid = -1

/-- Open the pipe that the signal handlers write to. -/
def Abs.openSignal (fd : Int) (a : Abs) : Abs :=
  ({ a with signal := fd }.open_ fd .signal).register fd

/-- What `main` establishes. -/
structure Starts (I : Abs → Prop) : Prop where
  blank : I (abs .blank)
  boot : ∀ {x a b}, Booting x a → Step x a b → I a → I b
  signal : ∀ {a fd}, 0 ≤ fd → a.table fd = none → a.signal = -1 → I a → I (a.openSignal fd)
  clock : ∀ {a n}, 0 ≤ n → n < TO_INF → I a → I { a with now := n }

theorem Keys.blank : Keys (abs .blank) := ⟨List.nodup_nil, fun _ h => nomatch h⟩

theorem Starts.initial (hI : Starts I) (h : initial s) : I (abs s) := by
  obtain ⟨env, now, h⟩ := h
  have hP : Ordinary Booting := fun _ _ hx => .inl hx
  have hR : MayRescan Booting false (State.blank.withEnv env) := by
    intro i a ha
    refine .inr ⟨i, rfl, fun v hv => ?_⟩
    by_contra hp
    obtain ⟨d, hd, -⟩ := ha v hv hp
    cases hd
  have h1 := scanConfigs_steps (s := State.blank.withEnv env) hP Keys.blank hR
  unfold Kdm.boot at h
  rcases hs : scanConfigs false (State.blank.withEnv env) with ⟨ret, s1⟩
  rw [hs] at h h1
  have hI1 : I (abs s1) := h1.preserves (fun _ _ _ hx hs hi => hI.boot hx hs hi) hI.blank
  have hsig : (abs s1).signal = -1 :=
    h1.preserves (I := fun a => a.signal = -1) (fun _ _ _ _ hs hi => hs.same_signal.trans hi) rfl
  dsimp only at h
  split at h
  · cases h
  · rcases openFd_spec .signal s1 with ⟨env', he⟩ | ⟨fd, env', he, hfd, ht⟩
    · rw [he] at h; simp at h
    · rw [he] at h
      dsimp only at h
      split at h
      · cases h
      · let s2 : State := { s1 with env := env', fds := (fd, .signal) :: s1.fds }
        have h2 : abs ({ s2 with signalFd := fd }.registerInput fd) = (abs s1).openSignal fd := by
          rw [abs_registerInput]
          exact congrArg (fun a : Abs => { a with signal := fd }.register fd)
            (abs_open (s := s1) fd .signal env')
        have hI2 : I (abs ({ s2 with signalFd := fd }.registerInput fd)) := by
          rw [h2]; exact hI.signal hfd ht hsig hI1
        have h3 := (openCtrl_steps hP ({ s2 with signalFd := fd }.registerInput fd)).trans
          (updateListenSockets_steps hP _)
        have hI3 := h3.preserves (fun _ _ _ hx hs hi => hI.boot hx hs hi) hI2
        split at h
        · rename_i hnow
          cases h
          exact hI.clock hnow.1 hnow.2 hI3
        · cases h

theorem Starts.keys : Starts Keys where
  blank := Keys.blank
  boot _ hs hk := hk.step hs
  signal _ _ _ hk := ⟨hk.nodup, hk.below⟩
  clock _ _ hk := ⟨hk.nodup, hk.below⟩

theorem Booting.tame {x : Act} {a : Abs} (h : Booting x a) : Tame x a := by
  rcases h with h | ⟨i, rfl, -⟩
  · cases x with
    | stop i r z =>
      cases r with
      | none => exact .inl (by simpa [Act.ordinary] using h)
      | session => trivial
      | server => trivial
    | _ => trivial
  · trivial

theorem Starts.orderly : Starts Orderly where
  blank := ⟨fun _ _ h => (nomatch h), fun _ h => (nomatch h), fun _ _ h => (nomatch h), by decide⟩
  boot hx hs ho := ho.step hx.tame hs
  signal _ _ _ ho := ho.frame rfl rfl rfl ho.clock
  clock _ hn ho := ho.frame rfl rfl rfl hn

theorem Starts.and {J : Abs → Prop} (hI : Starts I)
    (blank : J (abs .blank))
    (boot : ∀ {x a b}, Booting x a → Step x a b → I a → J a → J b)
    (signal : ∀ {a fd}, 0 ≤ fd → a.table fd = none → a.signal = -1 → I a → J a → J (a.openSignal fd))
    (clock : ∀ {a n}, 0 ≤ n → n < TO_INF → I a → J a → J { a with now := n }) :
    Starts fun a => I a ∧ J a where
  blank := ⟨hI.blank, blank⟩
  boot hx hs h := ⟨hI.boot hx hs h.1, boot hx hs h.1 h.2⟩
  signal hfd ht hs h := ⟨hI.signal hfd ht hs h.1, signal hfd ht hs h.1 h.2⟩
  clock hn hlt h := ⟨hI.clock hn hlt h.1, clock hn hlt h.1 h.2⟩

/-! ## Runs -/

/-- The invariant rule for runs from anywhere. -/
theorem invariant_from {init : State → Prop} (hstart : ∀ s, init s → Keys (abs s) ∧ I (abs s))
    (hstep : ∀ s e, Keys (abs s) → I (abs s) → C s e →
      ∀ x a b, Emits s e x a → Step x a b → Keys a → I a → I b)
    (hr : Reaches step init C s) : Keys (abs s) ∧ I (abs s) := by
  refine hr.simulation (I := fun a => Keys a ∧ I a) (P := Emits) (T := Step) hstart ?_ ?_
  · exact fun s e s' h _ hs => step_refines h.1 hs
  · exact fun s e h hc x a b hx hs hab => ⟨hab.1.step hs, hstep s e h.1 h.2 hc x a b hx hs hab.1 hab.2⟩

/-- **The invariant rule.** -/
theorem invariant (hstart : Starts I)
    (hstep : ∀ s e, Keys (abs s) → I (abs s) → C s e →
      ∀ x a b, Emits s e x a → Step x a b → Keys a → I a → I b)
    (hr : ReachableBy C s) : Keys (abs s) ∧ I (abs s) :=
  invariant_from (fun _ h => ⟨Starts.keys.initial h, hstart.initial h⟩) hstep hr

/-- Console mode is not entered while a local display awaits its X server. -/
def ConsoleSafe (s : State) (e : Event) : Prop :=
  ∀ i env, e = .gpipe i env → (gRecvCmd (s.withEnv env)).1 = some G_Console →
    s.conf.consoleTTYs ≠ [] → ∀ d ∈ s.displays, d.isLocal = true → d.serverStatus ≠ .awaiting

theorem Emits.tame (hc : ConsoleSafe s e) {x : Act} {a : Abs} (h : Emits s e x a) : Tame x a := by
  cases h with
  | ordinary hx => exact Booting.tame (.inl hx)
  | timed he hx => cases x <;> trivial
  | @console i env j d v a hg ht hd hl hv hvs =>
    refine .inr fun w hw => ?_
    rw [hv] at hw
    cases hw
    have hd' := hc i env rfl hg ht d (State.find_mem hd) hl
    rcases hvs with h | h
    · rw [h]; exact hd'
    · rw [h]; decide
  | _ => trivial

/-- The invariant rule for orderly runs from anywhere. -/
theorem orderly_invariant_from {init : State → Prop} (hC : ∀ s e, C s e → ConsoleSafe s e)
    (hstart : ∀ s, init s → Keys (abs s) ∧ Orderly (abs s) ∧ I (abs s))
    (hstep : ∀ s e, Keys (abs s) → Orderly (abs s) → I (abs s) → C s e →
      ∀ x a b, Emits s e x a → Step x a b → Orderly a → I a → I b)
    (hr : Reaches step init C s) : Keys (abs s) ∧ Orderly (abs s) ∧ I (abs s) := by
  refine invariant_from (I := fun a => Orderly a ∧ I a) hstart ?_ hr
  intro s e hk h hc x a b hx hs _ hab
  exact ⟨hab.1.step (hx.tame (hC s e hc)) hs, hstep s e hk h.1 h.2 hc x a b hx hs hab.1 hab.2⟩

/-- **The invariant rule for orderly runs.** -/
theorem orderly_invariant (hC : ∀ s e, C s e → ConsoleSafe s e)
    (hstart : Starts fun a => Orderly a ∧ I a)
    (hstep : ∀ s e, Keys (abs s) → Orderly (abs s) → I (abs s) → C s e →
      ∀ x a b, Emits s e x a → Step x a b → Orderly a → I a → I b)
    (hr : ReachableBy C s) : Keys (abs s) ∧ Orderly (abs s) ∧ I (abs s) :=
  orderly_invariant_from hC (fun _ h => ⟨Starts.keys.initial h, hstart.initial h⟩) hstep hr

theorem reachable_orderly (hr : ReachableBy ConsoleSafe s) : Keys (abs s) ∧ Orderly (abs s) := by
  obtain ⟨hk, ho, -⟩ := orderly_invariant (I := fun _ => True) (fun _ _ h => h)
    (Starts.orderly.and trivial (fun _ _ _ _ => trivial) (fun _ _ _ _ _ => trivial)
      fun _ _ _ _ => trivial)
    (fun _ _ _ _ _ _ _ _ _ _ _ _ _ => trivial) hr
  exact ⟨hk, ho⟩

/-! ## Concrete runs -/

/-- A run that the machine and a test for `C` accept, with a property of its last state. -/
theorem reachable_of_run (ok : State → Event → Bool) (env : Env) (now : Int) (es : List Event)
    (p : State → Bool) (hok : ∀ s e, ok s e = true → C s e)
    (h : ((boot env now).bind (exec step ok es)).any p = true) : ∃ s, ReachableBy C s ∧ p s = true := by
  rw [Option.any_eq_true] at h
  obtain ⟨s, hs, hp⟩ := h
  obtain ⟨s0, h0, hs⟩ := Option.bind_eq_some_iff.mp hs
  exact ⟨s, Reaches.exec hok ⟨[], .start ⟨env, now, h0⟩⟩ hs, hp⟩

/-- The same for a run from a given state. -/
theorem reaches_of_run {s0 : State} {ok : State → Event → Bool} {es : List Event} {p : State → Bool}
    (hok : ∀ s e, ok s e = true → C s e) (h : (exec step ok es s0).any p = true) :
    ∃ s, Reaches step (· = s0) C s ∧ p s = true := by
  rw [Option.any_eq_true] at h
  obtain ⟨s, hs, hp⟩ := h
  exact ⟨s, Reaches.exec hok ⟨[], .start rfl⟩ hs, hp⟩

/-- The test that all events pass. -/
def anyEvent (_ : State) (_ : Event) : Bool := true

/-- The events of the loop itself: no signal, message or command. -/
def Event.ofLoop : Event → Bool
  | .loop _ | .kick _ | .shutdown _ | .select _ | .timers _ => true
  | _ => false

/-- No message of a greeter. -/
def Event.noGreeter : Event → Bool
  | .gpipe _ _ => false
  | _ => true

theorem ConsoleSafe.of_noGreeter (h : e.noGreeter = true) : ConsoleSafe s e := by
  rintro i env rfl
  cases h

theorem Event.noGreeter_of_loop (h : e.ofLoop = true) : e.noGreeter = true := by
  cases e <;> first | rfl | cases h

theorem ConsoleSafe.of_loop (h : e.ofLoop = true) : ConsoleSafe s e :=
  .of_noGreeter (Event.noGreeter_of_loop h)

namespace Sample

/-- Displays with one attempt of 30 seconds to start a server. -/
def dpyConf : DisplayConf := ⟨false, false, false, 1, 30, 15, 4, 0, .all, .all⟩

def dmConf (staticServers : List String) : GlobalConf :=
  ⟨[], "", 0, false, false, 0, false, staticServers, [], []⟩

/-- What `main` sees when it starts with the configuration `c`. -/
def bootEnv (c : GlobalConf) : Env := { dmConf := .loaded c, sys := [1, 1, 1, 1, 3] }

/-- One pass over the loop that gives up waiting at time `t`. -/
def pass (loopEnv : Env) (kickSys : List Int) (t : Int) : List Event :=
  [.loop loopEnv, .kick { sys := kickSys }, .shutdown {}, .select t, .timers {}]

end Sample

end Kdm
