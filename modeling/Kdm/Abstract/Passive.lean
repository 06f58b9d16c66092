import Kdm.Abstract.Orderly

/-!
# Passive displays

A display in text mode or in reserve owns no process.  The session process is covered by
`Good.idle`; `Passive` adds the X server, and what follows for the calls that are logged.

Principal result: `Passive.step`.
-/

namespace Kdm

/-- The states of a display that waits to be used again. -/
def DisplayStatus.passive (st : DisplayStatus) : Prop := st = .textMode ∨ st = .reserve

/-- A server or a session is only started for a running display, and no passive display loses a
server. -/
def Call.proper : Call → Prop
  | .startServer _ st | .startDisplayP2 _ st => st = .running
  | .passiveServerExit _ st => ¬ st.passive

structure Passive (a : Abs) : Prop where
  serverPid : ∀ i v, a.disp i = some v → v.status.passive → v.serverPid = -1
  calls : ∀ c ∈ a.calls, c.proper

/-- Only a display without a server is made a reserve display. -/
def SparesServer : Act → Abs → Prop
  | .makeReserve i, a => ∀ v, a.disp i = some v → v.serverPid = -1
  | _, _ => True

namespace Passive

variable {a b : Abs} {i : Id} {v w : View}

theorem frame (h : Passive a) (hd : b.disp = a.disp) (hc : b.calls = a.calls) : Passive b :=
  ⟨by rw [hd]; exact h.serverPid, by rw [hc]; exact h.calls⟩

/-- Actions on one display. -/
theorem set (h : Passive a) (hw : w.status.passive → w.serverPid = -1)
    (hd : b.disp = (a.set i w).disp) (hc : b.calls = a.calls) : Passive b := by
  refine ⟨fun j u hu hp => ?_, by rw [hc]; exact h.calls⟩
  rw [hd, Abs.set_disp] at hu
  split at hu
  · cases hu; exact hw hp
  · exact h.serverPid j u hu hp

theorem setCtrl (h : Passive a) {x : Option Id} {fd : Int} {css : List Int}
    (hd : b.disp = (a.setCtrl x fd css).disp) (hc : b.calls = a.calls) : Passive b := by
  refine ⟨fun j u hu hp => ?_, by rw [hc]; exact h.calls⟩
  rw [hd] at hu
  obtain ⟨v, c, l, hv, rfl⟩ := Abs.setCtrl_origin hu
  exact h.serverPid j v hv hp

/-- A display leaves the list. -/
theorem drop (h : Passive a) (hd : ∀ j, b.disp j = if j = i then none else a.disp j)
    (hc : b.calls = a.calls) : Passive b := by
  refine ⟨fun j u hu hp => ?_, by rw [hc]; exact h.calls⟩
  rw [hd] at hu
  split at hu
  · cases hu
  · exact h.serverPid j u hu hp

end Passive

theorem DisplayStatus.not_passive {st : DisplayStatus} (h : st ≠ .textMode) (h' : st ≠ .reserve) :
    ¬ st.passive := fun hp => hp.elim h h'

theorem DisplayStatus.running_not_passive : ¬ DisplayStatus.running.passive :=
  not_passive nofun nofun

theorem View.stop_passive {z : EndState} {v : View} (h : v.stays z) (hp : (v.stop z).status.passive) :
    v.serverPid = -1 := by
  rcases View.stop_status h with ⟨-, hst, -⟩ | ⟨hq, -, -⟩ | ⟨hq, -, -⟩
  · rw [hst] at hp
    exact absurd hp (DisplayStatus.not_passive nofun nofun)
  · exact hq.2
  · exact hq.2

/-- The circumstances of a logged call make it a proper one. -/
theorem Passive.logs {a : Abs} {c : Call} (h : Passive a) (ho : Orderly a) (hl : a.logs c) :
    c.proper := by
  cases c with
  | startServer i st =>
    obtain ⟨v, hv, rfl, haw, -⟩ := hl
    exact ((ho.good i v hv).awaiting haw).1
  | startDisplayP2 i st =>
    obtain ⟨v, hv, ⟨-, rfl⟩ | ⟨hsl, hst, rfl⟩⟩ := hl
    · rfl
    · exact ((ho.good i v hv).start hsl (by rw [hst]; rfl)).1
  | passiveServerExit i st =>
    obtain ⟨v, hv, rfl, hsp⟩ := hl
    exact fun hp => hsp (h.serverPid i v hv hp)

/-- **Passive displays own no server.** -/
theorem Passive.step {x : Act} {a b : Abs} (h : Passive a) (ho : Orderly a) (hx : SparesServer x a)
    (hs : Step x a b) : Passive b := by
  cases x with
  | create v =>
    obtain ⟨rfl, rfl⟩ := hs
    refine ⟨fun j u hu hp => ?_, h.calls⟩
    rw [Abs.add_disp] at hu
    split at hu
    · cases hu; rfl
    · exact h.serverPid j u hu hp
  | discard => cases hs; exact h.drop (fun j => Abs.drop_disp) rfl
  | remove i r z =>
    obtain ⟨v, -, -, -, -, -, -, rfl⟩ := hs
    exact h.drop (fun j => Abs.drop_disp) rfl
  | stop i r z =>
    obtain ⟨v, hv, -, -, -, hst, rfl⟩ := hs
    refine h.set ?_ rfl rfl
    exact fun hp => (View.stop_serverPid z _).trans (View.stop_passive hst hp)
  | remote i r pid =>
    obtain ⟨v, hv, -, -, -, -, -, rfl⟩ := hs
    refine h.set (fun hp => absurd hp ?_) rfl rfl
    dsimp only
    split <;> exact DisplayStatus.not_passive (by simp) (by simp)
  | restart i st =>
    obtain ⟨v, hv, -, -, hst, rfl⟩ := hs
    refine h.set (fun hp => absurd hp ?_) rfl rfl
    rcases hst with rfl | ⟨rfl, -⟩ <;> exact DisplayStatus.not_passive (by simp) (by simp)
  | serverExit i st =>
    obtain ⟨v, hv, -, -, rfl⟩ := hs
    refine h.set ?_ rfl rfl
    exact fun _ => rfl
  | wake i st =>
    obtain ⟨v, hv, hst, -, rfl⟩ := hs
    refine h.set ?_ rfl rfl
    exact fun _ => h.serverPid i v hv (.inl hst)
  | unreserve i =>
    obtain ⟨v, hv, hst, rfl⟩ := hs
    refine h.set ?_ rfl rfl
    exact fun _ => h.serverPid i v hv (.inr hst)
  | makeReserve i =>
    obtain ⟨v, hv, -, rfl⟩ := hs
    refine h.set ?_ rfl rfl
    exact fun _ => hx v hv
  | startAwait i =>
    obtain ⟨v, hv, -, hsp, rfl⟩ := hs
    refine h.set ?_ rfl rfl
    exact fun _ => hsp
  | session i pid p g =>
    obtain ⟨v, hv, -, -, -, rfl⟩ := hs
    refine h.set (w := { v with status := .running, pid := pid, pipe := p, gpipe := g })
      ?_ Abs.openPair_set_disp (by simp [Abs.set])
    exact fun hp => absurd hp (DisplayStatus.not_passive (by simp) (by simp))
  | raise i =>
    obtain ⟨v, hv, -, -, rfl⟩ := hs
    refine h.set ?_ rfl rfl
    exact fun hp => absurd hp (DisplayStatus.not_passive (by simp) (by simp))
  | abort i =>
    obtain ⟨-, ⟨v, hv, rfl⟩ | ⟨-, rfl⟩⟩ := hs
    · refine h.set ?_ rfl rfl
      exact h.serverPid i v hv
    · exact h.frame rfl rfl
  | serverStart i pid =>
    obtain ⟨v, hv, hm, -, rfl⟩ := hs
    have hrun : v.status = .running := by
      rcases hm with ⟨-, haw⟩ | ⟨hsl, hp⟩
      · exact ((ho.good i v hv).awaiting haw).1
      · exact ((ho.good i v hv).start hsl (by rw [hp]; rfl)).1
    refine h.set (fun hp => absurd hp ?_) rfl rfl
    dsimp only
    rw [hrun]
    exact DisplayStatus.running_not_passive
  | retry i lost | giveUp i lost =>
    obtain ⟨v, hv, hm, rfl⟩ := hs
    have hrun := ((ho.good i v hv).failing hm).1
    refine h.set (fun hp => absurd hp ?_) rfl rfl
    dsimp only
    rw [hrun]
    exact DisplayStatus.running_not_passive
  | escalate i =>
    obtain ⟨v, hv, -, ⟨-, rfl⟩ | ⟨-, rfl⟩⟩ := hs
    all_goals
      refine h.set ?_ rfl rfl
      exact h.serverPid i v hv
  | serverReady i pid p g =>
    obtain ⟨v, hv, -, -, -, -, rfl⟩ := hs
    refine h.set (w := { v with serverStatus := .ignore, pid := pid, pipe := p, gpipe := g })
      ?_ Abs.openPair_set_timer_disp (by simp [Abs.set])
    exact h.serverPid i v hv
  | serverReadyFails i pid =>
    obtain ⟨v, hv, -, -, -, rfl⟩ := hs
    refine h.set ?_ rfl rfl
    exact fun hp => absurd hp (DisplayStatus.not_passive (by simp) (by simp))
  | relocate i l | putLocalSd i r | conf i t o =>
    obtain ⟨v, hv, rfl⟩ := hs
    refine h.set ?_ rfl rfl
    exact h.serverPid i v hv
  | user i uid | closePipe i | closeGPipe i | breakPipe i | breakGPipe i | acceptSd i =>
    obtain ⟨v, hv, -, rfl⟩ := hs
    refine h.set ?_ rfl rfl
    exact h.serverPid i v hv
  | noSession i pid =>
    obtain ⟨v, hv, -, -, rfl⟩ := hs
    refine h.set ?_ rfl rfl
    exact h.serverPid i v hv
  | dropSd i =>
    obtain ⟨v, r, hv, -, rfl⟩ := hs
    refine h.set ?_ rfl rfl
    exact h.serverPid i v hv
  | openCtrl x fd =>
    obtain ⟨c, -, -, -, -, -, rfl⟩ := hs
    exact h.setCtrl rfl (by simp [Abs.register, Abs.open_])
  | closeCtrl x =>
    obtain ⟨c, -, rfl⟩ := hs
    exact h.setCtrl rfl (by simp [Abs.unregisterAll, Abs.closeAll])
  | accept x fd =>
    obtain ⟨c, -, -, -, -, rfl⟩ := hs
    exact h.setCtrl rfl (by simp [Abs.register, Abs.open_])
  | nuke x fd =>
    obtain ⟨c, -, -, rfl⟩ := hs
    exact h.setCtrl rfl (by simp [Abs.unregisterAll, Abs.closeAll])
  | call c =>
    obtain ⟨hl, rfl⟩ := hs
    refine ⟨h.serverPid, fun c' hc' => ?_⟩
    rcases List.mem_cons.mp hc' with rfl | hc'
    · exact h.logs ho hl
    · exact h.calls c' hc'
  | xconnOk i => obtain ⟨v, -, -, rfl⟩ := hs; exact h.frame rfl rfl
  | timerOff => obtain ⟨-, rfl⟩ := hs; exact h.frame rfl rfl
  | crash f => obtain ⟨-, -, rfl⟩ := hs; exact h.frame rfl rfl
  | listenOpen fd => obtain ⟨-, -, rfl⟩ := hs; exact h.frame rfl rfl
  | listenDrop keep dead => obtain ⟨-, rfl⟩ := hs; exact h.frame rfl rfl
  | reachSd => obtain ⟨-, -, rfl⟩ := hs; exact h.frame rfl rfl
  | tick n => obtain ⟨-, -, rfl⟩ := hs; exact h.frame rfl rfl
  | unregister fd => cases hs; exact h.frame rfl rfl
  | cancelSd | expireSd | stopAll | putSd r => cases hs; exact h.frame rfl rfl

end Kdm
