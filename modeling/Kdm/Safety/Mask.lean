import Kdm.Abstract.Descriptors
import Kdm.Refine.Reach

/-!
# The select mask

In the runs in which no session or greeter breaks off in the middle of a message every
descriptor of `wellKnownSocketsMask` is open and held by the part of the daemon it was opened
for (`reachable_maskIntact`), so that `select` does not fail.  When a pipe breaks, `gErr` closes it
and leaves its bit in the mask.
-/

namespace Kdm

variable {s : State} {e : Event} {x : Act} {a : Abs}

/-- The part of the daemon that a descriptor was opened for holds it; the holder of a pipe is a
live session. -/
def State.holds (s : State) (fd : Int) : Owner → Prop
  | .signal => fd = s.signalFd
  | .listen => ∃ l ∈ s.listensocks, l.fd = fd
  | .ctrl none => s.ctrl.fd = fd
  | .ctrl (some i) => ∃ d ∈ s.displays, d.id = i ∧ d.ctrl.fd = fd
  | .conn none => fd ∈ s.ctrl.css
  | .conn (some i) => ∃ d ∈ s.displays, d.id = i ∧ fd ∈ d.ctrl.css
  | .pipe i => ∃ d ∈ s.displays, d.id = i ∧ d.pipe = fd ∧ d.pid ≠ -1
  | .gpipe i => ∃ d ∈ s.displays, d.id = i ∧ d.gpipe = fd ∧ d.pid ≠ -1

def MaskIntact (s : State) : Prop :=
  ∀ fd ∈ s.wellKnownSocketsMask, ∃ o, s.fdOwner fd = some o ∧ s.holds fd o

/-- `select` does not fail. -/
theorem MaskIntact.selectOk (h : MaskIntact s) : selectOk s = true := by
  refine List.all_eq_true.mpr fun fd hfd => ?_
  obtain ⟨o, ho, -⟩ := h fd hfd
  rw [ho]
  rfl

structure MaskSafe (s : State) (e : Event) : Prop where
  console : ConsoleSafe s e
  session : ∀ i env, e = .dpipe i env → ¬ BreaksOff (dpyCommand i) (s.withEnv env)
  greeter : ∀ i env, e = .gpipe i env → ¬ BreaksOff (greeterCommand i) (s.withEnv env)

theorem Emits.closesCleanly (hc : MaskSafe s e) (h : Emits s e x a) : ClosesCleanly x = true := by
  cases h with
  | breakPipe hb => exact absurd hb (hc.session _ _ rfl)
  | breakGPipe hb => exact absurd hb (hc.greeter _ _ rfl)
  | ordinary hx => cases x <;> first | rfl | exact hx
  | timed _ hx => cases x <;> first | rfl | exact Bool.noConfusion hx
  | _ => rfl

theorem Starts.masked : Starts fun a => Orderly a ∧ Masked a := by
  refine Starts.orderly.and (fun _ h => (nomatch h)) ?_ ?_ ?_
  · intro x a b hx hs ho h
    refine h.step ho ?_ hs
    rcases hx with hx | ⟨i, rfl, -⟩
    · cases x <;> first | rfl | exact hx
    · rfl
  · intro a fd hfd hfree hsig _ h
    refine h.open_ (o := .signal) hfd hfree rfl rfl rfl fun fd' o' h0 hown => ?_
    cases o' with
    | signal =>
      have hown : fd' = a.signal := hown
      omega
    | _ => exact hown
  · exact fun _ _ _ h => h.frame rfl rfl ⟨rfl, rfl, rfl, rfl⟩ rfl

/-- What the model says a descriptor is held by. -/
theorem holds_of_owns {fd : Int} {o : Owner} (ho : Orderly (abs s)) (h0 : 0 ≤ fd)
    (h : (abs s).owns fd o) : s.holds fd o := by
  have hctrl (i : Id) (c : Int × List Int) (hc : (abs s).ctrlOf (some i) = some c) :
      ∃ d ∈ s.displays, d.id = i ∧ c = (d.ctrl.fd, d.ctrl.css) := by
    obtain ⟨v, hv, rfl⟩ := Option.map_eq_some_iff.mp hc
    obtain ⟨d, hd, rfl⟩ := find_of_disp hv
    exact ⟨d, State.find_mem hd, State.find_id hd, rfl⟩
  have hlive (i : Id) (v : View) (hv : (abs s).disp i = some v) (hp : v.pipe = fd ∨ v.gpipe = fd) :
      v.pid ≠ -1 := by
    intro hpid
    obtain ⟨h1, h2, -⟩ := (ho.good i v hv).pipes hpid
    omega
  cases o with
  | signal => exact h
  | listen => simpa [State.holds, Abs.owns, abs] using h
  | ctrl y =>
    obtain ⟨c, hc, hfd⟩ := h
    cases y with
    | none => cases hc; exact hfd
    | some i =>
      obtain ⟨d, hd, hi, rfl⟩ := hctrl i c hc
      exact ⟨d, hd, hi, hfd⟩
  | conn y =>
    obtain ⟨c, hc, hfd⟩ := h
    cases y with
    | none => cases hc; exact hfd
    | some i =>
      obtain ⟨d, hd, hi, rfl⟩ := hctrl i c hc
      exact ⟨d, hd, hi, hfd⟩
  | pipe i =>
    obtain ⟨v, hv, hfd⟩ := h
    have hp := hlive i v hv (.inl hfd)
    obtain ⟨d, hd, rfl⟩ := find_of_disp hv
    exact ⟨d, State.find_mem hd, State.find_id hd, hfd, hp⟩
  | gpipe i =>
    obtain ⟨v, hv, hfd⟩ := h
    have hp := hlive i v hv (.inr hfd)
    obtain ⟨d, hd, rfl⟩ := find_of_disp hv
    exact ⟨d, State.find_mem hd, State.find_id hd, hfd, hp⟩

/-- **Select-mask integrity.** -/
theorem reachable_maskIntact (h : ReachableBy MaskSafe s) : MaskIntact s := by
  obtain ⟨-, ho, hm⟩ := orderly_invariant (fun _ _ hc => hc.console) Starts.masked
    (fun _ _ _ _ _ hc _ _ _ hx hs hoa hi => hi.step hoa (hx.closesCleanly hc) hs) h
  intro fd hfd
  obtain ⟨h0, o, ht, hown⟩ := hm fd hfd
  exact ⟨o, ht, holds_of_owns ho h0 hown⟩

namespace Sample

def sessionUp : List Event :=
  pass { dpyConf := [.loaded dpyConf] } [100] 51 ++ [.signal .SIGUSR1 { sys := [5, 6, 101] }] ++
  pass {} [] 52

end Sample

/-- The session dies after the command word of a message: its pipe stays in the mask, and `select`
fails. -/
theorem not_maskIntact : ∃ s, Reachable s ∧ s.phase = .select ∧ ¬ MaskIntact s := by
  obtain ⟨s, hs, hp⟩ := reachable_of_run (C := fun _ _ => True) anyEvent
    (Sample.bootEnv (Sample.dmConf [":0"])) 50
    (Sample.sessionUp ++ [.dpipe 0 { rx := [1, 0, 0, 0] }, .loop {}, .kick {}, .shutdown {}])
    (fun s => s.phase == .select && !selectOk s)
    (fun _ _ _ => trivial) (by decide)
  rw [Bool.and_eq_true, beq_iff_eq, Bool.not_eq_true'] at hp
  refine ⟨s, hs, hp.1, fun h => ?_⟩
  rw [h.selectOk] at hp
  exact Bool.noConfusion hp.2

/-- No message of a session or a greeter. -/
def Event.noMessage : Event → Bool
  | .dpipe _ _ | .gpipe _ _ => false
  | _ => true

theorem MaskSafe.of_noMessage (h : e.noMessage = true) : MaskSafe s e where
  console := by rintro i env rfl; cases h
  session := by rintro i env rfl; cases h
  greeter := by rintro i env rfl; cases h

/-- The pipes of a session are in the mask. -/
theorem maskIntact_session : ∃ s, s.wellKnownSocketsMask.length = 3 ∧ MaskIntact s := by
  obtain ⟨s, hs, hp⟩ := reachable_of_run (C := MaskSafe) (fun _ e => e.noMessage)
    (Sample.bootEnv (Sample.dmConf [":0"])) 50 Sample.sessionUp
    (fun s => s.wellKnownSocketsMask.length == 3)
    (fun _ _ => MaskSafe.of_noMessage) (by decide)
  exact ⟨s, by simpa using hp, reachable_maskIntact hs⟩

end Kdm
