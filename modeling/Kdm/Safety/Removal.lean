import Kdm.Abstract.Condemned
import Kdm.Refine.Reach

/-!
# Removal of a display is final

A zombie destined for removal stays one while it has a process and leaves the list with the last
one (`removal_final`), in the runs in which console mode is not entered while the display is
local and still in the list: `stopToTTY` overwrites what a zombie is destined for.
-/

namespace Kdm

open Runs

variable {s s0 : State} {e : Event} {x : Act} {a : Abs} {i : Id} {d : Display}

/-- If display `i` is still in the list, it is a zombie with a process, destined for removal. -/
def StaysRemoved (i : Id) (s : State) : Prop :=
  ∀ d ∈ s.displays, d.id = i → d.status = .zombie ∧ d.zstatus = .remove ∧
    (d.pid ≠ -1 ∨ d.serverPid ≠ -1)

/-- Console mode is not entered while display `i` is in the list and local. -/
def ConsoleSpares (i : Id) (s : State) (e : Event) : Prop :=
  ∀ j env d, e = .gpipe j env → (gRecvCmd (s.withEnv env)).1 = some G_Console →
    s.conf.consoleTTYs ≠ [] → s.find i = some d → d.isLocal = false

structure RemovalSafe (i : Id) (s : State) (e : Event) : Prop where
  console : ConsoleSafe s e
  spares : ConsoleSpares i s e

theorem Emits.keepsFate (hc : ConsoleSpares i s e) (h : Emits s e x a) : KeepsFate i x a := by
  cases h with
  | ordinary hx =>
    cases x with
    | stop j r z =>
      cases r with
      | none => exact fun _ => by simpa [Act.ordinary] using hx
      | session => trivial
      | server => trivial
    | _ => trivial
  | timed _ hx => cases x <;> trivial
  | console hg ht hd hl =>
    rintro rfl
    have hl' := hc _ _ _ rfl hg ht hd
    rw [hl] at hl'
    cases hl'
  | _ => trivial

/-- **Removal is final.** -/
theorem removal_final (h0 : ReachableBy ConsoleSafe s0) (hd : d ∈ s0.displays)
    (hz : d.status = .zombie) (hzs : d.zstatus = .remove)
    (h : Reaches step (· = s0) (RemovalSafe d.id) s) : StaysRemoved d.id s := by
  obtain ⟨hk0, ho0⟩ := reachable_orderly h0
  have hv := abs_disp (find_of_mem hk0 hd)
  have hstart : Condemned d.id (abs s0) := by
    refine ⟨ho0.fresh _ _ hv, fun v hv' => ?_⟩
    cases hv.symm.trans hv'
    exact ⟨hz, hzs, ((ho0.good _ _ hv).zombie hz).2⟩
  obtain ⟨hk, -, hcond⟩ := orderly_invariant_from (I := Condemned d.id) (fun _ _ hc => hc.console)
    (fun s hs => by rw [show s = s0 from hs]; exact ⟨hk0, ho0, hstart⟩)
    (fun _ _ _ _ _ hc _ _ _ hx hs ho hi => hi.step ho (hx.keepsFate hc.spares) hs) h
  intro d' hd' hid
  obtain ⟨h1, h2, h3⟩ := hcond.zombie (viewOf d') (hid ▸ abs_disp (find_of_mem hk hd'))
  refine ⟨h1, h2, ?_⟩
  by_contra hc
  rw [not_or, not_not, not_not] at hc
  exact h3 hc

namespace Sample

/-- The display runs a session on a server when the daemon is told to terminate. -/
def terminated : List Event :=
  pass { dpyConf := [.loaded dpyConf] } [100] 51 ++ [.signal .SIGUSR1 { sys := [5, 6, 101] }] ++
  pass {} [] 52 ++ [.dpipe 0 { rx := [6, 0, 0, 0] }] ++ pass {} [] 300 ++ [.signal .SIGTERM {}]

/-- The session and the server of the display end. -/
def reaped : List Event :=
  pass {} [] 301 ++ [.signal .SIGCHLD {}, .child 101 ⟨15, 0, 0⟩ {}, .child 100 ⟨0, 0, 0⟩ {},
    .childrenDone, .rescan {}]

end Sample

/-- The greeter of a display that is being removed asks for console mode, and the display is kept
when its processes have ended. -/
theorem removal_not_final : ∃ s0 d s, Reachable s0 ∧ d ∈ s0.displays ∧ d.status = .zombie ∧
    d.zstatus = .remove ∧ Reaches step (· = s0) (fun _ _ => True) s ∧ ¬ StaysRemoved d.id s := by
  obtain ⟨s0, hs0, hp⟩ := reachable_of_run (C := fun _ _ => True) anyEvent
    (Sample.bootEnv { Sample.dmConf [":0"] with consoleTTYs := ["tty1"] }) 50 Sample.terminated
    (fun s => (s.displays.any fun d => d.id == 0 && d.status == .zombie && d.zstatus == .remove) &&
      (exec step anyEvent (Sample.pass {} [] 301 ++ [.gpipe 0 { rx := [116, 0, 0, 0] }] ++ Sample.reaped)
        s).any fun s => s.displays.any fun d => d.id == 0 && d.status != .zombie)
    (fun _ _ _ => trivial) (by decide)
  rw [Bool.and_eq_true] at hp
  obtain ⟨d, hd, hz⟩ := List.any_eq_true.mp hp.1
  simp only [Bool.and_eq_true, beq_iff_eq] at hz
  obtain ⟨s, hs, hq⟩ := reaches_of_run (C := fun _ _ => True) (fun _ _ _ => trivial) hp.2
  refine ⟨s0, d, s, hs0, hd, hz.1.2, hz.2, hs, fun h => ?_⟩
  obtain ⟨d', hd', hst⟩ := List.any_eq_true.mp hq
  simp only [Bool.and_eq_true, beq_iff_eq, bne_iff_ne] at hst
  exact hst.2 (h d' hd' (by rw [hst.1, hz.1.1])).1

theorem RemovalSafe.of_noGreeter (h : e.noGreeter = true) : RemovalSafe i s e where
  console := .of_noGreeter h
  spares := by rintro j env d rfl; cases h

/-- The session of a display that is being removed ends. -/
theorem removal_final_session : ∃ s : State, s.displays ≠ [] ∧ StaysRemoved 0 s := by
  obtain ⟨s0, hs0, hp⟩ := reachable_of_run (C := ConsoleSafe) (fun _ e => e.noGreeter)
    (Sample.bootEnv (Sample.dmConf [":0"])) 50 Sample.terminated
    (fun s => (s.displays.any fun d => d.id == 0 && d.status == .zombie && d.zstatus == .remove) &&
      (exec step (fun _ e => e.noGreeter) (Sample.reaped.take 7) s).any fun s => !s.displays.isEmpty)
    (fun _ _ => ConsoleSafe.of_noGreeter) (by decide)
  rw [Bool.and_eq_true] at hp
  obtain ⟨d, hd, hz⟩ := List.any_eq_true.mp hp.1
  simp only [Bool.and_eq_true, beq_iff_eq] at hz
  obtain ⟨s, hs, hq⟩ := reaches_of_run (C := RemovalSafe d.id)
    (fun _ _ => RemovalSafe.of_noGreeter) hp.2
  have hfinal := removal_final hs0 hd hz.1.2 hz.2 hs
  rw [hz.1.1] at hfinal
  refine ⟨s, fun he => ?_, hfinal⟩
  rw [he] at hq
  cases hq

end Kdm
