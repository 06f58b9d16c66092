import Kdm.Abstract.Model

/-!
# Orderly displays

The invariant that every claim about the display state machine rests on.  It ties the status
of a display to its processes (`Good`) and holds in every run in which console mode is not
entered while a display awaits its X server (`Tame`): suspending such a display would leave
it marked as awaiting although it is not running.

Principal result: `Orderly.step`.
-/

namespace Kdm

/-- The states of a display without a session process. -/
def DisplayStatus.idle : DisplayStatus → Bool
  | .notRunning | .phoenix | .textMode | .reserve | .remoteLogin => true
  | .running | .zombie | .raiser => false

theorem exitsTo.idle {st st' : DisplayStatus} (h : exitsTo st st') (hi : st'.idle = true) :
    st.idle = true := by
  cases st <;> simp_all [exitsTo, DisplayStatus.idle]

theorem exitsTo.running {st st' : DisplayStatus} (h : exitsTo st st') :
    st = .running ↔ st' = .running := by
  cases st <;> simp_all [exitsTo]
  rcases h with rfl | rfl <;> simp

theorem exitsTo.not_zombie {st st' : DisplayStatus} (h : exitsTo st st') : st' ≠ .zombie := by
  cases st <;> simp_all [exitsTo]
  rcases h with rfl | rfl <;> simp

/-- What holds of each display; `starting` says that it holds the start slot. -/
structure Good (starting : Prop) (v : View) : Prop where
  awaiting : v.serverStatus = .awaiting → v.status = .running ∧ v.quiet
  idle : v.status.idle = true → v.pid = -1
  start : starting → v.serverStatus.inStart = true → v.status = .running ∧ v.pid = -1
  zombie : v.status = .zombie → ¬ starting ∧ ¬ v.quiet
  pipes : v.pid = -1 → v.pipe = -1 ∧ v.gpipe = -1 ∧ v.ctrl < 0
  user : 0 ≤ v.userSess → v.pid ≠ -1
  css : v.ctrl < 0 → v.css = []

/-- **The invariant of the display list.** -/
structure Orderly (a : Abs) : Prop where
  good : ∀ i v, a.disp i = some v → Good (a.slot = some i) v
  slot : ∀ i, a.slot = some i → ∃ v, a.disp i = some v
  fresh : ∀ i v, a.disp i = some v → i < a.nextId
  clock : a.now < TO_INF

/-- Console mode suspends no display that awaits its X server. -/
def Tame : Act → Abs → Prop
  | .stop i .none z, a => z = .remove ∨ ∀ v, a.disp i = some v → v.serverStatus ≠ .awaiting
  | _, _ => True

theorem Good.mono {p q : Prop} {v : View} (h : Good p v) (hqp : q → p) : Good q v :=
  ⟨h.awaiting, h.idle, fun hq => h.start (hqp hq), fun hz => ⟨fun hq => (h.zombie hz).1 (hqp hq),
    (h.zombie hz).2⟩, h.pipes, h.user, h.css⟩

theorem Good.fresh (p : Prop) : Good p .fresh := by
  constructor <;> simp [View.fresh, View.quiet, ServerStatus.inStart, DisplayStatus.idle]

namespace Orderly

variable {a b : Abs} {i : Id} {v w : View}

/-- Actions on the rest of the state. -/
theorem frame (h : Orderly a) (hd : b.disp = a.disp) (hs : b.slot = a.slot)
    (hn : b.nextId = a.nextId) (hc : b.now < TO_INF) : Orderly b :=
  ⟨by rw [hd, hs]; exact h.good, by rw [hd, hs]; exact h.slot, by rw [hd, hn]; exact h.fresh, hc⟩

/-- Actions on one display, which may take or leave the slot. -/
theorem put (h : Orderly a) (hv : a.disp i = some v) (hw : Good (b.slot = some i) w)
    (hd : b.disp = (a.set i w).disp) (hs : ∀ j, b.slot = some j → a.slot = some j ∨ j = i)
    (hn : b.nextId = a.nextId) (hc : b.now = a.now) : Orderly b := by
  have hdj : ∀ j, b.disp j = if j = i then some w else a.disp j := by
    intro j; rw [hd]; simp [Abs.set, Function.update_apply]
  refine ⟨?_, ?_, ?_, by rw [hc]; exact h.clock⟩
  · intro j u hu
    rw [hdj] at hu
    split at hu
    · rename_i hj; cases hu; subst hj; exact hw
    · rename_i hj
      exact (h.good j u hu).mono fun hb => (hs j hb).resolve_right hj
  · intro j hj
    rw [hdj]
    split
    · exact ⟨w, rfl⟩
    · rename_i hne
      exact h.slot j ((hs j hj).resolve_right hne)
  · intro j u hu
    rw [hn]
    rw [hdj] at hu
    split at hu
    · rename_i hj; subst hj; exact h.fresh _ _ hv
    · exact h.fresh j u hu

/-- Actions on one display that leave the slot alone. -/
theorem set (h : Orderly a) (hv : a.disp i = some v) (hw : Good (a.slot = some i) w)
    (hd : b.disp = (a.set i w).disp) (hs : b.slot = a.slot) (hn : b.nextId = a.nextId)
    (hc : b.now = a.now) : Orderly b :=
  h.put hv (by rw [hs]; exact hw) hd (fun j hj => .inl (hs ▸ hj)) hn hc

theorem not_next (h : Orderly a) : a.disp a.nextId = none := by
  cases hn : a.disp a.nextId with
  | none => rfl
  | some v => exact absurd (h.fresh _ v hn) (Nat.lt_irrefl _)

end Orderly

/-- A display that is stopped without holding the slot. -/
theorem Good.stop {p : Prop} {z : EndState} {w : View} (hp : ¬ p)
    (haw : w.serverStatus ≠ .awaiting) (hst : w.stays z)
    (hpipes : w.pid = -1 → w.pipe = -1 ∧ w.gpipe = -1 ∧ w.ctrl < 0)
    (huser : 0 ≤ w.userSess → w.pid ≠ -1) (hcss : w.ctrl < 0 → w.css = []) :
    Good p (w.stop z) := by
  have hs := View.stop_status hst
  refine ⟨?_, ?_, fun h => absurd h hp, ?_, ?_, ?_, ?_⟩
  · intro h; rw [View.stop_serverStatus] at h; exact absurd h haw
  · intro h
    rw [View.stop_pid]
    rcases hs with ⟨-, h1, -⟩ | ⟨hq, -, -⟩ | ⟨hq, -, -⟩
    · rw [h1] at h; cases h
    · exact hq.1
    · exact hq.1
  · intro h
    refine ⟨hp, ?_⟩
    rcases hs with ⟨hq, -, -⟩ | ⟨-, -, h1⟩ | ⟨-, -, h1⟩
    · simpa [View.quiet] using hq
    · rw [h1] at h; cases h
    · rw [h1] at h; cases h
  · simpa using hpipes
  · simpa using huser
  · simpa using hcss

/-- What an exit leaves of a display that had the process. -/
theorem Good.reap {p : Prop} {v : View} {r : Reap} (h : Good p v) (hr : r.ok v) :
    ((r.apply v).pid = -1 → (r.apply v).pipe = -1 ∧ (r.apply v).gpipe = -1 ∧ (r.apply v).ctrl < 0) ∧
      (0 ≤ (r.apply v).userSess → (r.apply v).pid ≠ -1) ∧
      ((r.apply v).ctrl < 0 → (r.apply v).css = []) := by
  cases r with
  | none => exact ⟨h.pipes, h.user, h.css⟩
  | session => exact ⟨fun _ => hr.2, fun h0 => by simp [Reap.apply] at h0, h.css⟩
  | server => exact ⟨h.pipes, h.user, h.css⟩

/-- A display with a process does not await its server. -/
theorem Good.not_awaiting {p : Prop} {v : View} (h : Good p v) (hq : ¬ v.quiet) :
    v.serverStatus ≠ .awaiting :=
  fun ha => hq (h.awaiting ha).2

theorem ServerStatus.cases_start {st : ServerStatus} (h : st ≠ .ignore) :
    st = .awaiting ∨ st.inStart = true := by
  cases st <;> simp_all [ServerStatus.inStart]

/-- A display whose server start fails is running without a session. -/
theorem Good.failing {a : Abs} {i : Id} {lost : Bool} {v : View} (h : Good (a.slot = some i) v)
    (hm : a.mayFail i lost v) : v.status = .running ∧ v.pid = -1 := by
  unfold Abs.mayFail Abs.mayTry at hm
  split at hm
  · rcases hm with ⟨-, hs⟩ | ⟨hsl, hs⟩
    · exact ⟨(h.awaiting hs).1, (h.awaiting hs).2.1⟩
    · exact h.start hsl (by rw [hs]; rfl)
  · obtain ⟨hsl, hs⟩ := hm
    rcases ServerStatus.cases_start hs with hs | hs
    · exact ⟨(h.awaiting hs).1, (h.awaiting hs).2.1⟩
    · exact h.start hsl hs

theorem Reap.not_quiet {v : View} {r : Reap} (hr : r.ok v) (hne : r ≠ .none) : ¬ v.quiet := by
  cases r with
  | none => exact absurd rfl hne
  | session => exact fun hq => hr.1 hq.1
  | server => exact fun hq => hr hq.2

namespace Orderly

variable {a b : Abs} {i : Id} {v w : View}

/-- Actions on a control socket. -/
theorem setCtrl {x : Option Id} {c : Int × List Int} {fd : Int} {css : List Int} (h : Orderly a)
    (hx : a.ctrlOf x = some c)
    (hw : ∀ i v, x = some i → a.disp i = some v → (v.ctrl, v.css) = c →
      Good (a.slot = some i) { v with ctrl := fd, css := css })
    (hd : b.disp = (a.setCtrl x fd css).disp) (hs : b.slot = a.slot) (hn : b.nextId = a.nextId)
    (hc : b.now = a.now) : Orderly b := by
  cases x with
  | none => exact h.frame hd hs hn (by rw [hc]; exact h.clock)
  | some i =>
    simp only [Abs.ctrlOf, Option.map_eq_some_iff] at hx
    obtain ⟨v, hv, hvc⟩ := hx
    refine h.set hv (hw i v rfl hv hvc) ?_ hs hn hc
    rw [hd]; simp [Abs.setCtrl, hv]

theorem create (h : Orderly a) (hs : Step (.create v) a b) : Orderly b := by
  obtain ⟨rfl, rfl⟩ := hs
  unfold Abs.add
  refine ⟨?_, ?_, ?_, h.clock⟩
  · intro j u hu
    simp only [Function.update_apply] at hu
    split at hu
    · cases hu; exact Good.fresh _
    · exact h.good j u hu
  · intro j hj
    obtain ⟨u, hu⟩ := h.slot j hj
    simp only [Function.update_apply]
    split
    · exact ⟨_, rfl⟩
    · exact ⟨u, hu⟩
  · intro j u hu
    simp only [Function.update_apply] at hu
    split at hu
    · rename_i hj; subst hj; exact Nat.lt_succ_self _
    · exact Nat.lt_succ_of_lt (h.fresh j u hu)

theorem discard (h : Orderly a) (hs : Step .discard a b) : Orderly b := by
  cases hs
  refine ⟨?_, ?_, ?_, h.clock⟩
  · intro j u hu
    simp only [Abs.drop, Function.update_apply] at hu
    split at hu
    · cases hu
    · exact h.good j u hu
  · intro j hj
    obtain ⟨u, hu⟩ := h.slot j hj
    have hne : j ≠ a.nextId := fun he => by rw [he, h.not_next] at hu; cases hu
    exact ⟨u, by simpa [Abs.drop, Function.update_apply, hne] using hu⟩
  · intro j u hu
    simp only [Abs.drop, Function.update_apply] at hu
    split at hu
    · cases hu
    · exact Nat.lt_succ_of_lt (h.fresh j u hu)

theorem remove {r : Reap} {z : EndState} (h : Orderly a) (hs : Step (.remove i r z) a b) :
    Orderly b := by
  obtain ⟨v, hv, hsl, -, -, -, -, rfl⟩ := hs
  refine ⟨?_, ?_, ?_, h.clock⟩
  · intro j u hu
    simp only [Abs.drop, Function.update_apply] at hu
    split at hu
    · cases hu
    · exact h.good j u hu
  · intro j hj
    have hne : j ≠ i := fun he => hsl (he ▸ hj)
    simpa [Abs.drop, Function.update_apply, hne] using h.slot j hj
  · intro j u hu
    simp only [Abs.drop, Function.update_apply] at hu
    split at hu
    · cases hu
    · exact h.fresh j u hu

theorem stop {r : Reap} {z : EndState} (h : Orderly a) (ht : Tame (.stop i r z) a)
    (hs : Step (.stop i r z) a b) : Orderly b := by
  obtain ⟨v, hv, hsl, hr, -, hst, rfl⟩ := hs
  have hg := h.good i v hv
  obtain ⟨hp, hu, hc⟩ := hg.reap hr
  refine h.set hv (Good.stop hsl ?_ hst hp hu hc) rfl rfl rfl rfl
  rw [Reap.apply_serverStatus]
  by_cases hne : r = .none
  · subst hne
    rcases ht with rfl | ht
    · refine hg.not_awaiting ?_
      rcases hst with hq | ⟨b, hb⟩ | hb
      · exact hq
      · cases hb
      · cases hb
    · exact ht v hv
  · exact hg.not_awaiting (Reap.not_quiet hr hne)

theorem remote {r : Reap} {pid : Int} (h : Orderly a) (hs : Step (.remote i r pid) a b) :
    Orderly b := by
  obtain ⟨v, hv, hsl, hr, -, hq, hne, rfl⟩ := hs
  have hg := h.good i v hv
  obtain ⟨hp, hu, hc⟩ := hg.reap hr
  have haw := hg.not_awaiting (Reap.not_quiet hr hne)
  refine h.set hv ?_ rfl rfl rfl rfl
  refine ⟨fun ha => ?_, fun _ => hq.1, fun hb => absurd hb hsl, fun hz => ?_, hp, hu, hc⟩
  · simp only [Reap.apply_serverStatus] at ha; exact absurd ha haw
  · split at hz <;> cases hz

theorem wake {st : DisplayStatus} (h : Orderly a) (hs : Step (.wake i st) a b) : Orderly b := by
  obtain ⟨v, hv, hst, hto, rfl⟩ := hs
  have hg := h.good i v hv
  refine h.set hv ?_ rfl rfl rfl rfl
  cases hg
  constructor <;> grind -ring -linarith -order [DisplayStatus.idle]

theorem unreserve (h : Orderly a) (hs : Step (.unreserve i) a b) : Orderly b := by
  obtain ⟨v, hv, hst, rfl⟩ := hs
  have hg := h.good i v hv
  refine h.set hv ?_ rfl rfl rfl rfl
  cases hg
  constructor <;> grind -ring -linarith -order [DisplayStatus.idle]

theorem makeReserve (h : Orderly a) (hs : Step (.makeReserve i) a b) : Orderly b := by
  obtain ⟨v, hv, hst, rfl⟩ := hs
  have hg := h.good i v hv
  refine h.set hv ?_ rfl rfl rfl rfl
  cases hg
  constructor <;> grind -ring -linarith -order [DisplayStatus.idle]

theorem startAwait (h : Orderly a) (hs : Step (.startAwait i) a b) : Orderly b := by
  obtain ⟨v, hv, hst, hsp, rfl⟩ := hs
  have hg := h.good i v hv
  refine h.set hv ?_ rfl rfl rfl rfl
  cases hg
  constructor <;> grind -ring -linarith -order [DisplayStatus.idle, View.quiet, ServerStatus.inStart]

theorem session {pid p g : Int} (h : Orderly a) (hs : Step (.session i pid p g) a b) : Orderly b := by
  obtain ⟨v, hv, hst, hpid, hf, rfl⟩ := hs
  have hg := h.good i v hv
  refine h.set (w := { v with status := .running, pid := pid, pipe := p, gpipe := g }) hv ?_
    Abs.openPair_set_disp (by simp [Abs.set]) (by simp [Abs.set]) (by simp [Abs.set])
  cases hg
  constructor <;> grind -ring -linarith -order [DisplayStatus.idle]

theorem noSession {pid : Int} (h : Orderly a) (hs : Step (.noSession i pid) a b) : Orderly b := by
  obtain ⟨v, hv, hst, hpid, rfl⟩ := hs
  have hg := h.good i v hv
  refine h.set hv ?_ rfl rfl rfl rfl
  cases hg
  constructor <;> grind -ring -linarith -order [DisplayStatus.idle, View.quiet]

theorem raise (h : Orderly a) (hs : Step (.raise i) a b) : Orderly b := by
  obtain ⟨v, hv, hst, hpid, rfl⟩ := hs
  have hg := h.good i v hv
  refine h.set hv ?_ rfl rfl rfl rfl
  cases hg
  constructor <;> grind -ring -linarith -order [DisplayStatus.idle, View.quiet]

theorem abort (h : Orderly a) (hs : Step (.abort i) a b) : Orderly b := by
  obtain ⟨hsl, ⟨v, hv, rfl⟩ | ⟨hn, rfl⟩⟩ := hs
  · have hg := h.good i v hv
    refine h.put hv ?_ rfl (fun j hj => by cases hj) rfl rfl
    cases hg
    constructor <;> grind -ring -linarith -order [View.quiet]
  · obtain ⟨v, hv⟩ := h.slot i hsl
    rw [hn] at hv; cases hv

theorem serverStart {pid : Int} (h : Orderly a) (hs : Step (.serverStart i pid) a b) : Orderly b := by
  obtain ⟨v, hv, hm, hp, rfl⟩ := hs
  have hg := h.good i v hv
  refine h.put hv ?_ rfl (fun j hj => .inr (by simpa using hj.symm)) rfl rfl
  cases hg
  constructor <;> grind -ring -linarith -order [Abs.mayTry, View.quiet, ServerStatus.inStart, DisplayStatus.idle]

theorem retry {lost : Bool} (h : Orderly a) (hs : Step (.retry i lost) a b) : Orderly b := by
  obtain ⟨v, hv, hm, rfl⟩ := hs
  have hg := h.good i v hv
  refine h.put hv ?_ rfl (fun j hj => .inr (by simpa using hj.symm)) rfl rfl
  obtain ⟨hrun, hpid⟩ := hg.failing hm
  cases hg
  constructor <;> grind -ring -linarith -order [DisplayStatus.idle]

theorem giveUp {lost : Bool} (h : Orderly a) (hs : Step (.giveUp i lost) a b) : Orderly b := by
  obtain ⟨v, hv, hm, rfl⟩ := hs
  have hg := h.good i v hv
  refine h.put hv ?_ rfl (fun j hj => by cases hj) rfl rfl
  obtain ⟨hrun, hpid⟩ := hg.failing hm
  cases hg
  constructor <;> grind -ring -linarith -order [DisplayStatus.idle]

theorem escalate (h : Orderly a) (hs : Step (.escalate i) a b) : Orderly b := by
  obtain ⟨v, hv, hsl, ⟨hst, rfl⟩ | ⟨hst, rfl⟩⟩ := hs
  all_goals
    have hg := h.good i v hv
    refine h.set hv ?_ rfl rfl rfl rfl
    cases hg
    constructor <;> grind -ring -linarith -order [ServerStatus.inStart]

theorem serverReady {pid p g : Int} (h : Orderly a) (hs : Step (.serverReady i pid p g) a b) : Orderly b := by
  obtain ⟨v, hv, hsl, hst, hpid, hf, rfl⟩ := hs
  have hg := h.good i v hv
  refine h.set (w := { v with serverStatus := .ignore, pid := pid, pipe := p, gpipe := g }) hv ?_
    Abs.openPair_set_timer_disp (by simp [Abs.set]) (by simp [Abs.set]) (by simp [Abs.set])
  cases hg
  constructor <;> grind -ring -linarith -order [ServerStatus.inStart, DisplayStatus.idle]

theorem serverReadyFails {pid : Int} (h : Orderly a) (hs : Step (.serverReadyFails i pid) a b) : Orderly b := by
  obtain ⟨v, hv, hsl, hst, hpid, rfl⟩ := hs
  have hg := h.good i v hv
  refine h.set hv ?_ rfl rfl rfl rfl
  cases hg
  constructor <;> grind -ring -linarith -order [ServerStatus.inStart, DisplayStatus.idle]

theorem openCtrl {x : Option Id} {fd : Int} (h : Orderly a) (hs : Step (.openCtrl x fd) a b) : Orderly b := by
  obtain ⟨c, hc, hlt, hfd, -, hpid, rfl⟩ := hs
  refine h.setCtrl hc ?_ rfl (by simp [Abs.register, Abs.open_]) (by simp [Abs.register, Abs.open_])
    (by simp [Abs.register, Abs.open_])
  intro i v hx hv hvc
  have := hpid i v hx hv
  have hg := h.good i v hv
  cases hg
  constructor <;> grind -ring -linarith -order [View.quiet]

theorem closeCtrl {x : Option Id} (h : Orderly a) (hs : Step (.closeCtrl x) a b) : Orderly b := by
  obtain ⟨c, hc, rfl⟩ := hs
  refine h.setCtrl hc ?_ rfl (by simp [Abs.unregisterAll, Abs.closeAll])
    (by simp [Abs.unregisterAll, Abs.closeAll]) (by simp [Abs.unregisterAll, Abs.closeAll])
  intro i v hx hv hvc
  have hg := h.good i v hv
  cases hg
  constructor <;> grind -ring -linarith -order [View.quiet]

theorem accept {x : Option Id} {fd : Int} (h : Orderly a) (hs : Step (.accept x fd) a b) : Orderly b := by
  obtain ⟨c, hc, hlt, hfd, -, rfl⟩ := hs
  refine h.setCtrl hc ?_ rfl (by simp [Abs.register, Abs.open_]) (by simp [Abs.register, Abs.open_])
    (by simp [Abs.register, Abs.open_])
  intro i v hx hv hvc
  have hg := h.good i v hv
  cases hg
  constructor <;> grind -ring -linarith -order [View.quiet]

theorem nuke {x : Option Id} {fd : Int} (h : Orderly a) (hs : Step (.nuke x fd) a b) : Orderly b := by
  obtain ⟨c, hc, hfd, rfl⟩ := hs
  refine h.setCtrl hc ?_ rfl (by simp [Abs.unregisterAll, Abs.closeAll])
    (by simp [Abs.unregisterAll, Abs.closeAll]) (by simp [Abs.unregisterAll, Abs.closeAll])
  intro i v hx hv hvc
  have hg := h.good i v hv
  cases hg
  constructor <;> grind -ring -linarith -order [View.quiet]

/-- **Every tame action keeps the display list orderly.** -/
theorem step {x : Act} (h : Orderly a) (ht : Tame x a) (hs : Step x a b) : Orderly b := by
  cases x with
  | create v => exact h.create hs
  | discard => exact h.discard hs
  | stop i r z => exact h.stop ht hs
  | remove i r z => exact h.remove hs
  | remote i r pid => exact h.remote hs
  | relocate i l =>
    obtain ⟨v, hv, rfl⟩ := hs
    obtain ⟨h1, h2, h3, h4, h5, h6, h7⟩ := h.good i v hv
    refine h.set hv ?_ rfl rfl rfl rfl
    exact ⟨h1, h2, h3, h4, h5, h6, h7⟩
  | restart i st =>
    obtain ⟨v, hv, hr, hz, hst, rfl⟩ := hs
    have hg := h.good i v hv
    obtain ⟨hp, hu, hc⟩ := hg.reap hr
    have haw := hg.not_awaiting (Reap.not_quiet hr (by decide))
    refine h.set hv ?_ rfl rfl rfl rfl
    refine ⟨fun ha => absurd ha haw, fun _ => rfl, ?_, ?_, hp, hu, hc⟩
    · intro hb hi
      exact absurd (hg.start hb hi).2 hr.1
    · intro hz'
      rcases hst with rfl | ⟨rfl, -⟩ <;> cases hz'
  | serverExit i st =>
    obtain ⟨v, hv, hsp, hst, rfl⟩ := hs
    have hg := h.good i v hv
    have haw : v.serverStatus ≠ .awaiting := hg.not_awaiting fun hq => hsp hq.2
    refine h.set hv ?_ rfl rfl rfl rfl
    refine ⟨fun ha => absurd ha haw, ?_, ?_, ?_, hg.pipes, hg.user, hg.css⟩
    · exact fun hi => hg.idle (hst.idle hi)
    · exact fun hb hi => ⟨hst.running.mp (hg.start hb hi).1, (hg.start hb hi).2⟩
    · exact fun hz => absurd hz hst.not_zombie
  | wake i st => exact h.wake hs
  | unreserve i => exact h.unreserve hs
  | makeReserve i => exact h.makeReserve hs
  | startAwait i => exact h.startAwait hs
  | session i pid p g => exact h.session hs
  | noSession i pid => exact h.noSession hs
  | raise i => exact h.raise hs
  | user i uid =>
    obtain ⟨v, hv, hp, rfl⟩ := hs
    obtain ⟨h1, h2, h3, h4, h5, h6, h7⟩ := h.good i v hv
    refine h.set hv ?_ rfl rfl rfl rfl
    exact ⟨h1, h2, h3, h4, h5, fun _ hpid => hp (h5 hpid).1, h7⟩
  | abort i => exact h.abort hs
  | serverStart i pid => exact h.serverStart hs
  | retry i lost => exact h.retry hs
  | giveUp i lost => exact h.giveUp hs
  | escalate i => exact h.escalate hs
  | serverReady i pid p g => exact h.serverReady hs
  | serverReadyFails i pid => exact h.serverReadyFails hs
  | xconnOk i =>
    obtain ⟨v, hv, hp, rfl⟩ := hs
    refine ⟨fun j u hu => (h.good j u hu).mono ?_, ?_, h.fresh, h.clock⟩
    · intro hb; cases hb
    · intro j hj; cases hj
  | timerOff => obtain ⟨-, rfl⟩ := hs; exact h.frame rfl rfl rfl h.clock
  | crash f => obtain ⟨-, -, rfl⟩ := hs; exact h.frame rfl rfl rfl h.clock
  | openCtrl x fd => exact h.openCtrl hs
  | closeCtrl x => exact h.closeCtrl hs
  | accept x fd => exact h.accept hs
  | nuke x fd => exact h.nuke hs
  | listenOpen fd => obtain ⟨-, -, rfl⟩ := hs; exact h.frame rfl rfl rfl h.clock
  | listenDrop keep dead => obtain ⟨-, rfl⟩ := hs; exact h.frame rfl rfl rfl h.clock
  | unregister fd => cases hs; exact h.frame rfl rfl rfl h.clock
  | closePipe i | closeGPipe i | breakPipe i | breakGPipe i =>
    obtain ⟨v, hv, hp, rfl⟩ := hs
    have hg := h.good i v hv
    refine h.set hv ?_ rfl rfl rfl rfl
    cases hg
    constructor <;> grind -ring -linarith -order [View.quiet]
  | cancelSd => cases hs; exact h.frame rfl rfl rfl h.clock
  | reachSd => obtain ⟨-, -, rfl⟩ := hs; exact h.frame rfl rfl rfl h.clock
  | expireSd => cases hs; exact h.frame rfl rfl rfl h.clock
  | stopAll => cases hs; exact h.frame rfl rfl rfl h.clock
  | putSd r => cases hs; exact h.frame rfl rfl rfl h.clock
  | acceptSd i =>
    obtain ⟨v, hv, -, rfl⟩ := hs
    obtain ⟨h1, h2, h3, h4, h5, h6, h7⟩ := h.good i v hv
    refine h.set hv ?_ rfl rfl rfl rfl
    exact ⟨h1, h2, h3, h4, h5, h6, h7⟩
  | putLocalSd i r =>
    obtain ⟨v, hv, rfl⟩ := hs
    obtain ⟨h1, h2, h3, h4, h5, h6, h7⟩ := h.good i v hv
    refine h.set hv ?_ rfl rfl rfl rfl
    exact ⟨h1, h2, h3, h4, h5, h6, h7⟩
  | dropSd i =>
    obtain ⟨v, r, hv, -, rfl⟩ := hs
    obtain ⟨h1, h2, h3, h4, h5, h6, h7⟩ := h.good i v hv
    refine h.set hv ?_ rfl rfl rfl rfl
    exact ⟨h1, h2, h3, h4, h5, h6, h7⟩
  | call c => obtain ⟨-, rfl⟩ := hs; exact h.frame rfl rfl rfl h.clock
  | conf i t o =>
    obtain ⟨v, hv, rfl⟩ := hs
    obtain ⟨h1, h2, h3, h4, h5, h6, h7⟩ := h.good i v hv
    refine h.set hv ?_ rfl rfl rfl rfl
    exact ⟨h1, h2, h3, h4, h5, h6, h7⟩
  | tick n => obtain ⟨-, hn, rfl⟩ := hs; exact h.frame rfl rfl rfl hn

end Orderly

end Kdm
