import Kdm.Abstract.Passive
import Kdm.Refine.Reach

/-!
# Passive displays own no processes

In the runs that meet `PassiveSafe` a display in text mode or in reserve has neither a session
nor a server and waits for none (`reachable_passiveIdle`).  The condition leaves out the two ways
the code has into a passive state that look at the status of the display only.
-/

namespace Kdm

variable {s : State} {e : Event} {x : Act} {a : Abs}

/-- A display in text mode or in reserve has no process and does not wait for one; servers and
sessions were only started for running displays, and no server of a passive display was reaped. -/
structure PassiveIdle (s : State) : Prop where
  displays : ∀ d ∈ s.displays, d.status.passive →
    d.pid = -1 ∧ d.serverPid = -1 ∧ d.serverStatus ≠ .awaiting
  calls : ∀ c ∈ s.calls, c.proper

/-- A rescan makes no display with a server a reserve display. -/
def RescanSpares (s : State) (e : Event) : Prop :=
  ∀ force env, Rescans s e force env → ∀ d ∈ s.displays, d.name ∈ reserveNames force (s.withEnv env) →
    d.status = .notRunning → d.serverPid = -1

structure PassiveSafe (s : State) (e : Event) : Prop where
  console : ConsoleSafe s e
  rescan : RescanSpares s e

theorem Emits.sparesServer (hk : Keys (abs s)) (hi : Passive (abs s)) (hc : RescanSpares s e)
    (h : Emits s e x a) : SparesServer x a := by
  cases h with
  | ordinary hx => cases x <;> trivial
  | timed _ hx => cases x <;> trivial
  | makeReserve hr hb =>
    intro v hv
    by_contra hsp
    obtain ⟨d, hd, hn, hdsp, hst⟩ := hb v hv hsp
    rcases hst with hst | hst
    · exact hdsp (hc _ _ hr d hd hn hst)
    · exact hdsp (hi.serverPid d.id _ (abs_disp (find_of_mem hk hd)) (.inr hst))
  | _ => trivial

theorem Starts.passive : Starts fun a => Orderly a ∧ Passive a := by
  refine Starts.orderly.and ⟨fun _ _ h => (nomatch h), fun _ h => (nomatch h)⟩ ?_ ?_ ?_
  · intro x a b hx hs ho h
    refine h.step ho ?_ hs
    rcases hx with hx | ⟨i, rfl, hsp⟩
    · cases x <;> trivial
    · exact hsp
  · exact fun _ _ _ _ h => h.frame rfl rfl
  · exact fun _ _ _ h => h.frame rfl rfl

/-- **Passive displays own no processes.** -/
theorem reachable_passiveIdle (h : ReachableBy PassiveSafe s) : PassiveIdle s := by
  obtain ⟨hk, ho, hp⟩ := orderly_invariant (fun _ _ hc => hc.console) Starts.passive
    (fun s e hk _ hi hc _ _ _ hx hs hoa hia => hia.step hoa (hx.sparesServer hk hi hc.rescan) hs) h
  refine ⟨fun d hd hst => ?_, hp.calls⟩
  have hv := abs_disp (find_of_mem hk hd)
  have hg := ho.good d.id _ hv
  refine ⟨hg.idle ?_, hp.serverPid d.id _ hv hst, fun haw => ?_⟩
  · rcases hst with hst | hst <;> (unfold viewOf; rw [hst]; rfl)
  · have hrun : d.status = .running := (hg.awaiting haw).1
    rw [hrun] at hst
    exact DisplayStatus.running_not_passive hst

namespace Sample

/-- The display has become a reserve display. -/
def reserveConf : GlobalConf := { dmConf [] with reserveServers := [":0"], autoRescan := true }

/-- The session of display 0 ends, its server is kept, and a rescan finds the display among the
reserve displays. -/
def reserveRescan : List Event :=
  pass { dpyConf := [.loaded dpyConf] } [100] 51 ++ [.signal .SIGUSR1 { sys := [5, 6, 101] }] ++
  pass {} [] 52 ++ [.dpipe 0 { rx := [6, 0, 0, 0] }] ++
  pass {} [] 300 ++ [.signal .SIGCHLD {}, .child 101 ⟨0, 0, 30⟩ {}, .childrenDone,
    .rescan { dmConf := .loaded reserveConf }]

end Sample

/-- A rescan turns a display whose server was kept into a reserve display. -/
theorem not_passiveIdle : ∃ s, Reachable s ∧ ¬ PassiveIdle s := by
  obtain ⟨s, hs, hp⟩ := reachable_of_run (C := fun _ _ => True) anyEvent
    (Sample.bootEnv { Sample.dmConf [":0"] with autoRescan := true }) 50 Sample.reserveRescan
    (fun s => s.displays.any fun d => d.status == .reserve && d.serverPid != -1)
    (fun _ _ _ => trivial) (by decide)
  refine ⟨s, hs, fun h => ?_⟩
  obtain ⟨d, hd, hst⟩ := List.any_eq_true.mp hp
  simp only [Bool.and_eq_true, beq_iff_eq, bne_iff_ne] at hst
  exact hst.2 (h.displays d hd (.inr hst.1)).2.1

theorem PassiveSafe.of_loop (h : e.ofLoop = true) (hs : ∀ d ∈ s.displays, d.serverPid = -1) :
    PassiveSafe s e where
  console := .of_loop h
  rescan _ _ _ d hd _ _ := hs d hd

/-- A display waits in reserve. -/
theorem passiveIdle_reserve : ∃ s, s.displays.any (·.status == .reserve) = true ∧ PassiveIdle s := by
  obtain ⟨s, hs, hp⟩ := reachable_of_run (C := PassiveSafe)
    (fun s e => e.ofLoop && s.displays.all fun d => d.serverPid == -1)
    (Sample.bootEnv Sample.reserveConf) 50 (Sample.pass {} [] 51)
    (fun s => s.displays.any (·.status == .reserve))
    (fun s e h => by
      rw [Bool.and_eq_true, List.all_eq_true] at h
      exact PassiveSafe.of_loop h.1 fun d hd => by simpa using h.2 d hd) (by decide)
  exact ⟨s, hp, reachable_passiveIdle hs⟩

end Kdm
