import Kdm.Xdmcp.Tables

/-!
# What KEEPALIVE is told

`send_alive` looks for the session ID of the packet among all displays, and a display that XDMCP
did not start has session ID 0.  Exactly the packets with session ID 0 can be told that such a
display is their session (`alive_honest_iff`).
-/

namespace Kdm.Xdmcp

open Runs

variable {b : Build} {crypt : Crypt} {env : Env} {from_ : Sockaddr} {r : Request} {m : Manage}
  {s s' s1 : Daemon} {e : Event} {p p' : ProtoDisplay} {d : Display} {n : UInt16}
  {sessionID : UInt32} {length : Nat}

/-! ## Session IDs of displays -/

/-- The session ID was sent in an ACCEPT. -/
def Assigned (s : Daemon) (sessionID : UInt32) : Prop :=
  ∃ dest p a, Entry.accept dest p a ∈ s.log ∧ a.sessionID = sessionID

/-- Displays of XDMCP have a session ID that was assigned, all others have none. -/
def SessionIDs (s : Daemon) : Prop :=
  ∀ d ∈ s.displays, if d.displayType.origin = .dFromXDMCP then Assigned s d.sessionID
    else d.sessionID = 0

/-- The log only grows. -/
theorem Effect.log (h : Effect b crypt s e s') : ∃ l, s'.log = l ++ s.log := by
  cases h with
  | quiet hq _ => exact hq.log.imp fun _ h => h.1
  | starved reason => exact ⟨_ :: _, rfl⟩
  | @answered from_ r env p s1 s' ho ha =>
    have h1 : ∃ l, s1.log = l ++ s.log := by
      cases ho with
      | found _ => exact ⟨[], rfl⟩
      | new _ _ _ _ _ _ _ => exact ⟨_, rfl⟩
    obtain ⟨l, hl⟩ := h1
    cases ha with
    | declined _ => exact ⟨_ :: _ :: l, congrArg (_ :: _ :: ·) hl⟩
    | accepted _ _ =>
      unfold sendAccept Daemon.noteXdmAuth
      split
      · exact ⟨_ :: _ :: l, congrArg (_ :: _ :: ·) hl⟩
      · exact ⟨_ :: l, congrArg (_ :: ·) hl⟩
  | managed hp hsid hq ha hid hd =>
    obtain ⟨l, hl, -⟩ := hq.log
    exact ⟨_ :: l, congrArg (_ :: ·) hl⟩

theorem Assigned.mono {l : List Entry} (hl : s'.log = l ++ s.log) (h : Assigned s sessionID) :
    Assigned s' sessionID := by
  obtain ⟨dest, p, a, hmem, ha⟩ := h
  exact ⟨dest, p, a, hl ▸ List.mem_append_right l hmem, ha⟩

theorem SessionIDs.quiet (h : SessionIDs s) (hq : Quiet s s1) {l : List Entry}
    (hl : s'.log = l ++ s.log) (hd : d ∈ s1.displays) :
    if d.displayType.origin = .dFromXDMCP then Assigned s' d.sessionID else d.sessionID = 0 := by
  rcases hq.displays d hd with ⟨d0, h0, hd0⟩ | ⟨-, -, hs, ho⟩
  · have h0 := h d0 h0
    rw [hd0]
    dsimp only
    split
    · rename_i ho
      rw [if_pos ho] at h0
      exact h0.mono hl
    · rename_i ho
      rw [if_neg ho] at h0
      exact h0
  · rw [if_neg ho]
    exact hs

theorem SessionIDs.step (ht : Tables none s) (h : SessionIDs s) (hs : step b crypt e s = some s') :
    SessionIDs s' := by
  have he := step_effect hs
  obtain ⟨l, hl⟩ := he.log
  intro d hd
  cases he with
  | quiet hq _ => exact h.quiet hq hl hd
  | starved reason => exact h.quiet (.refl s) hl hd
  | @answered from_ r env p s1 s' ho ha =>
    refine h.quiet (.refl s) hl ?_
    have hs1 : s1.displays = s.displays := by cases ho <;> rfl
    rw [← hs1]
    cases ha with
    | declined _ => exact hd
    | accepted _ _ =>
      unfold sendAccept Daemon.noteXdmAuth at hd
      split at hd <;> exact hd
  | @managed from_ m env p d' s1 hp hsid hq ha hid hfor =>
    rcases List.mem_cons.mp hd with rfl | hd
    · obtain ⟨dest, p0, a, hmem, -, ha, -⟩ := ht.offered p (findProtoDisplay_mem hp) nofun
      rw [if_pos hfor.origin, hfor.sessionID, ← ha]
      exact Assigned.mono hl ⟨dest, p0, a, hmem, rfl⟩
    · exact h.quiet hq hl hd

theorem reachable_sessionIDs {conf : Conf} {access : Access} {now : Int} {t : Nat}
    {C : Daemon → Event → Prop}
    (h : Reaches (step b crypt) (· = initXdmcp conf access now t) C s) : SessionIDs s := by
  refine (h.invariant (I := fun s => Tables none s ∧ SessionIDs s) (fun s hs => ?_)
    fun _ _ _ hi _ hs => ⟨hi.1.step hs, hi.2.step hi.1 hs⟩).2
  rw [show s = _ from hs]
  exact ⟨.initial, fun d hd => by cases hd⟩

/-! ## The answer -/

/-- A running session of XDMCP with an assigned ID. -/
def LiveSession (s : Daemon) (sessionID : UInt32) : Prop :=
  ∃ d ∈ s.displays, d.displayType.origin = .dFromXDMCP ∧ d.status = .running ∧
    d.sessionID = sessionID ∧ Assigned s sessionID

/-- When a KEEPALIVE is told that its session is running, it is. -/
def AliveHonest (b : Build) (crypt : Crypt) (s : Daemon) (from_ : Sockaddr) (n : UInt16)
    (sessionID : UInt32) (length : Nat) (env : Env) : Prop :=
  ∀ s' id, step b crypt (.packet from_ (.keepAlive n sessionID length) env) s = some s' →
    s'.log = .sent from_ (.alive true id) :: s.log → LiveSession s sessionID

theorem SessionIDs.assigned (h : SessionIDs s) (hd : d ∈ s.displays)
    (ho : d.displayType.origin = .dFromXDMCP) : Assigned s d.sessionID := by
  have hid := h d hd
  rwa [if_pos ho] at hid

/-- A running display with a session ID is a session of XDMCP. -/
theorem SessionIDs.live (h : SessionIDs s) (hd : d ∈ s.displays) (hrun : d.status = .running)
    (hs : d.sessionID = sessionID) (hz : sessionID ≠ 0) : LiveSession s sessionID := by
  have hid := h d hd
  split at hid
  · rename_i ho
    exact ⟨d, hd, ho, hrun, hs, hs ▸ hid⟩
  · exact absurd (hs.symm.trans hid) hz

theorem aliveDisplay_sessionID (h : aliveDisplay s from_ n sessionID = some d)
    (hd : d.sessionID = sessionID) : findDisplayBySessionID s sessionID = some d := by
  unfold aliveDisplay at h
  split at h
  · rename_i d' hd'
    exact hd'.trans h
  · rename_i hnone
    have hmem : d ∈ s.displays := List.mem_of_find?_eq_some h
    exact absurd (beq_iff_eq.mpr hd) (List.find?_eq_none.mp hnone d hmem)

theorem aliveAnswer_true : (aliveAnswer s from_ n sessionID).1 = true ↔
    ∃ d, findDisplayBySessionID s sessionID = some d ∧ d.status = .running ∧
      d.sessionID = sessionID := by
  unfold aliveAnswer
  constructor
  · intro h
    split at h
    · rename_i d hd
      split at h
      · rename_i hrun
        have hs : d.sessionID = sessionID := beq_iff_eq.mp h
        exact ⟨d, aliveDisplay_sessionID hd hs, hrun, hs⟩
      · cases h
    · cases h
  · rintro ⟨d, hd, hrun, hs⟩
    have ha : aliveDisplay s from_ n sessionID = some d := by
      unfold aliveDisplay
      rw [hd]
    rw [ha]
    dsimp only
    rw [if_pos hrun]
    exact beq_iff_eq.mpr hs

theorem findDisplayBySessionID_spec (h : findDisplayBySessionID s sessionID = some d) :
    d ∈ s.displays ∧ d.sessionID = sessionID := by
  have hf := List.find?_some h
  exact ⟨List.mem_of_find?_eq_some h, beq_iff_eq.mp hf⟩

theorem aliveHonest_iff_answer (hl : length = 6) :
    AliveHonest b crypt s from_ n sessionID length env ↔
      ((aliveAnswer s from_ n sessionID).1 = true → LiveSession s sessionID) := by
  subst hl
  constructor
  · intro h ha
    refine h _ (aliveAnswer s from_ n sessionID).2 rfl ?_
    rw [← ha]
    rfl
  · intro h s' id hs hlog
    cases hs
    have hans : Entry.sent from_ (.alive (aliveAnswer s from_ n sessionID).1
        (aliveAnswer s from_ n sessionID).2) = .sent from_ (.alive true id) :=
      (List.cons.inj hlog).1
    refine h ?_
    injection hans with _ hans
    injection hans

/-- **KEEPALIVE honesty**: a packet is told about a session that is none of XDMCP exactly when
its session ID is 0, the first display with that ID is running, and no running display of XDMCP
was assigned 0. -/
theorem alive_honest_iff {conf : Conf} {access : Access} {now : Int} {t : Nat}
    (h : Reaches (step b crypt) (· = initXdmcp conf access now t) (fun _ _ => True) s) :
    AliveHonest b crypt s from_ n sessionID length env ↔
      length ≠ 6 ∨ sessionID ≠ 0 ∨ (findDisplayBySessionID s 0).all (·.status ≠ .running) = true ∨
      ∃ d ∈ s.displays, d.displayType.origin = .dFromXDMCP ∧ d.status = .running ∧
        d.sessionID = 0 := by
  have hids := reachable_sessionIDs h
  by_cases hl : length = 6
  · rw [aliveHonest_iff_answer hl, aliveAnswer_true]
    constructor
    · intro hh
      by_cases hz : sessionID = 0
      · subst hz
        refine .inr (.inr ?_)
        cases hf : findDisplayBySessionID s 0 with
        | none => exact .inl rfl
        | some d =>
          by_cases hrun : d.status = .running
          · obtain ⟨d', hd', ho, hr, hs, -⟩ :=
              hh ⟨d, hf, hrun, (findDisplayBySessionID_spec hf).2⟩
            exact .inr ⟨d', hd', ho, hr, hs⟩
          · exact .inl (by simpa using hrun)
      · exact .inr (.inl hz)
    · rintro hc ⟨d, hf, hrun, hs⟩
      obtain ⟨hd, -⟩ := findDisplayBySessionID_spec hf
      by_cases hz : sessionID = 0
      · subst hz
        rcases hc with hc | hc | hc | ⟨d', hd', ho, hr, hs'⟩
        · exact absurd hl hc
        · exact absurd rfl hc
        · rw [hf] at hc
          simp [hrun] at hc
        · exact ⟨d', hd', ho, hr, hs', hs' ▸ hids.assigned hd' ho⟩
      · exact hids.live hd hrun hs hz
  · refine iff_of_true (fun s' id hs hlog => ?_) (.inl hl)
    cases hs
    have hlen := congrArg List.length hlog
    rw [show (sendAlive from_ n sessionID length s).log = s.log by
      unfold sendAlive; rw [if_pos hl]] at hlen
    simp at hlen

namespace Sample

/-- The local display `:0` is running. -/
def localRunning : Daemon :=
  { initXdmcp conf access 0 0 with
    nextId := 1
    displays := [{ Display.other 0 (ascii ":0") ⟨.dLocal, .dPermanent, .dFromFile⟩ with
      status := .running }] }

theorem reaches_localRunning : Reaches (step build cipher) (· = initXdmcp conf access 0 0)
    (fun _ _ => True) localRunning :=
  .next (e := .status 0 .running) (.next (e := .other (ascii ":0") ⟨.dLocal, .dPermanent, .dFromFile⟩)
    ⟨[], .start rfl⟩ trivial rfl) trivial rfl

end Sample

/-- A KEEPALIVE for session 0 is told that it is running, on account of the local display. -/
theorem alive_not_honest : ∃ s from_ n sessionID length env,
    Reaches (step Sample.build Sample.cipher) (· = initXdmcp Sample.conf Sample.access 0 0)
      (fun _ _ => True) s ∧
    ¬ AliveHonest Sample.build Sample.cipher s from_ n sessionID length env := by
  refine ⟨Sample.localRunning, Sample.client, 0, 0, 6, {}, Sample.reaches_localRunning, fun h => ?_⟩
  obtain ⟨d, hd, ho, -⟩ := h _ 0 rfl rfl
  cases List.mem_singleton.mp hd
  cases ho

/-- The other session IDs are told the truth. -/
theorem alive_honest_local :
    AliveHonest Sample.build Sample.cipher Sample.localRunning Sample.client 0 1 6 {} :=
  (alive_honest_iff Sample.reaches_localRunning).mpr (.inr (.inl (by decide)))

end Kdm.Xdmcp
