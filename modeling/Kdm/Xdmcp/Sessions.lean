import Kdm.Xdmcp.Tables

/-!
# XDMCP session safety

A MANAGE starts the session that was offered with its session ID, once (`reachable_sessions`).
That a repeated MANAGE is ignored or refused rests on session IDs being different, which they are
as long as fewer than `2 ^ 32` were drawn.  A REQUEST draws one before it is known whether it will
be accepted, so counting the accepted requests is not enough
(`repeated_manage_after_declines`).
-/

namespace Kdm.Xdmcp

open Runs

variable {b : Build} {crypt : Crypt} {env : Env} {from_ : Sockaddr} {r : Request} {m : Manage}
  {s s' s1 : Daemon} {e : Event} {p p' : ProtoDisplay} {d : Display} {base : Nat}
  {C : Daemon → Event → Prop}

/-! ## Session IDs -/

/-- The proto display is in the table, or the log speaks of it. -/
def Known (s : Daemon) (p : ProtoDisplay) : Prop :=
  p ∈ s.protoDisplays ∨ ∃ e ∈ s.log, e.proto = some p

/-- Session IDs were drawn one after the other; before they wrap around, they tell the proto
displays apart. -/
structure Numbered (base : Nat) (s : Daemon) : Prop where
  start : base ≤ s.globalSessionID
  drawn : ∀ p, Known s p → ∃ n, base < n ∧ n ≤ s.globalSessionID ∧ p.sessionID = UInt32.ofNat n
  fresh : ∀ p, Known s p → p.id < s.nextId
  distinct : s.globalSessionID < base + 2 ^ 32 → ∀ p q, Known s p → Known s q →
    (p.id = q.id ↔ p.sessionID = q.sessionID)

theorem Numbered.initial {conf : Conf} {access : Access} {now : Int} {t : Nat} :
    Numbered (t % 0x8000 * 16000) (initXdmcp conf access now t) := by
  have hno (p : ProtoDisplay) : ¬ Known (initXdmcp conf access now t) p := by
    rintro (h | ⟨e, h, -⟩)
    · cases h
    · cases h
  exact ⟨le_rfl, fun p h => absurd h (hno p), fun p h => absurd h (hno p), fun _ p _ h => absurd h (hno p)⟩

/-- Nothing new is known. -/
theorem Numbered.of_known (h : Numbered base s)
    (hk : ∀ p', Known s' p' → ∃ p, Known s p ∧ p.Same p')
    (hg : s.globalSessionID ≤ s'.globalSessionID) (hn : s.nextId ≤ s'.nextId) :
    Numbered base s' where
  start := h.start.trans hg
  drawn p' h' := by
    obtain ⟨p, hp, hs⟩ := hk p' h'
    obtain ⟨n, h1, h2, h3⟩ := h.drawn p hp
    exact ⟨n, h1, h2.trans hg, hs.sessionID.trans h3⟩
  fresh p' h' := by
    obtain ⟨p, hp, hs⟩ := hk p' h'
    exact hs.id ▸ lt_of_lt_of_le (h.fresh p hp) hn
  distinct hb p' q' h1 h2 := by
    obtain ⟨p, hp, hs⟩ := hk p' h1
    obtain ⟨q, hq, hs'⟩ := hk q' h2
    rw [hs.id, hs'.id, hs.sessionID, hs'.sessionID]
    exact h.distinct (lt_of_le_of_lt hg hb) p q hp hq

theorem Known.quiet (hq : Quiet s s') (h : Known s' p) : Known s p := by
  obtain ⟨l, hl, hno⟩ := hq.log
  rcases h with h | ⟨e, he, hp⟩
  · exact .inl (hq.protoDisplays ▸ h)
  · rw [hl] at he
    rcases List.mem_append.mp he with he | he
    · rw [hno e he] at hp
      cases hp
    · exact .inr ⟨e, he, hp⟩

theorem Numbered.quiet (h : Numbered base s) (hq : Quiet s s') : Numbered base s' :=
  h.of_known (fun p' h' => ⟨p', h'.quiet hq, .refl p'⟩) hq.globalSessionID.ge hq.nextId

theorem Known.drawn (h : Known (drawn s) p) : Known s p := by
  rcases h with h | ⟨e, he, hp⟩
  · exact .inl (List.mem_filter.mp h).1
  · rcases List.mem_append.mp he with he | he
    · obtain ⟨p0, h0, rfl⟩ := List.mem_map.mp he
      cases hp
      exact .inl (List.mem_filter.mp h0).1
    · exact .inr ⟨e, he, hp⟩

theorem ofNat_ne {n k : Nat} (h : n ≤ k) (hk : k + 1 < n + 2 ^ 32) :
    UInt32.ofNat (k + 1) ≠ UInt32.ofNat n := by
  intro heq
  have hmod : (k + 1) % 2 ^ 32 = n % 2 ^ 32 := by simpa using congrArg UInt32.toNat heq
  omega

theorem Numbered.opened (h : Numbered base s) (ho : Opened s from_ r p s1) :
    Numbered base s1 ∧ Known s1 p := by
  cases ho with
  | found hp => exact ⟨h, .inl (findProtoDisplay_mem hp)⟩
  | new hnone hid haddr hnum hsid hauth hkey =>
    -- what is known is `p` or was known before
    have hk (q : ProtoDisplay) (hq : Known { Kdm.Xdmcp.drawn s with
        nextId := s.nextId + 1
        protoDisplays := p :: s.protoDisplays.filter fun q => !q.expired s.now } q) :
        q = p ∨ Known s q := by
      rcases hq with hq | hq
      · rcases List.mem_cons.mp hq with hq | hq
        · exact .inl hq
        · exact .inr (Known.drawn (.inl hq))
      · exact .inr (Known.drawn (.inr hq))
    refine ⟨⟨Nat.le_succ_of_le h.start, fun q hq => ?_, fun q hq => ?_, fun hb q q' hq hq' => ?_⟩, .inl List.mem_cons_self⟩
    · rcases hk q hq with rfl | hq
      · exact ⟨s.globalSessionID + 1, Nat.lt_succ_of_le h.start, le_rfl, hsid⟩
      · obtain ⟨n, h1, h2, h3⟩ := h.drawn q hq
        exact ⟨n, h1, Nat.le_succ_of_le h2, h3⟩
    · rcases hk q hq with rfl | hq
      · exact hid ▸ Nat.lt_succ_self _
      · exact lt_trans (h.fresh q hq) (Nat.lt_succ_self _)
    · have hb : s.globalSessionID + 1 < base + 2 ^ 32 := hb
      -- the new proto display differs from every other in both
      have hnew (q : ProtoDisplay) (hq : Known s q) : p.id ≠ q.id ∧ p.sessionID ≠ q.sessionID := by
        obtain ⟨n, h1, h2, h3⟩ := h.drawn q hq
        have hlt := h.fresh q hq
        refine ⟨by omega, ?_⟩
        rw [hsid, h3]
        exact ofNat_ne h2 (by omega)
      rcases hk q hq with rfl | hold <;> rcases hk q' hq' with rfl | hold'
      · exact iff_of_true rfl rfl
      · exact iff_of_false (hnew q' hold').1 (hnew q' hold').2
      · exact iff_of_false (hnew q hold).1.symm (hnew q hold).2.symm
      · exact h.distinct (by omega) q q' hold hold'

theorem Known.answered (hp : Known s1 p) (ha : Answered b crypt env from_ r p s1 s')
    (h : Known s' p') : ∃ q, Known s1 q ∧ q.Same p' := by
  cases ha with
  | @declined reason data p1 hs =>
    rcases h with h | ⟨e, he, hpe⟩
    · exact ⟨p', .inl (List.mem_filter.mp h).1, .refl p'⟩
    · rcases List.mem_cons.mp he with rfl | he
      · cases hpe
        exact ⟨p, hp, hs⟩
      · rcases List.mem_cons.mp he with rfl | he
        · cases hpe
        · exact ⟨p', .inr ⟨e, he, hpe⟩, .refl p'⟩
  | @accepted j data p1 hj hc =>
    have h1 := checkAuthentication_same b crypt env r p
    rw [hc] at h1
    have h2 := h1.trans (authorizeDisplay_same b crypt env r.authorizationNames[j]? p1)
    have hlog (e : Entry) (he : e ∈ (s1.noteXdmAuth b r.authorizationNames[j]? p1).log) :
        e ∈ s1.log ∨ e = .xdmAuth p1 := by
      unfold Daemon.noteXdmAuth at he
      split at he
      · exact (List.mem_cons.mp he).symm
      · exact .inl he
    have hpro : (s1.noteXdmAuth b r.authorizationNames[j]? p1).protoDisplays = s1.protoDisplays := by
      unfold Daemon.noteXdmAuth
      split <;> rfl
    rcases h with h | ⟨e, he, hpe⟩
    · obtain ⟨p0, h0, rfl⟩ := List.mem_map.mp h
      rw [hpro] at h0
      split
      · exact ⟨p, hp, h2⟩
      · exact ⟨p0, .inl h0, .refl p0⟩
    · rcases List.mem_cons.mp he with rfl | he
      · cases hpe
        exact ⟨p, hp, h2⟩
      · rcases hlog e he with he | rfl
        · exact ⟨p', .inr ⟨e, he, hpe⟩, .refl p'⟩
        · cases hpe
          exact ⟨p, hp, h1⟩

theorem Numbered.step (h : Numbered base s) (hs : step b crypt e s = some s') :
    Numbered base s' := by
  cases step_effect hs with
  | quiet hq _ => exact h.quiet hq
  | starved reason =>
    refine h.of_known (fun p' h' => ⟨p', Known.drawn (h'.quiet (.send _ _ _)), .refl p'⟩)
      (Nat.le_succ _) le_rfl
  | answered ho ha =>
    obtain ⟨h1, hp⟩ := h.opened ho
    refine h1.of_known (fun p' h' => Known.answered hp ha h') ?_ ?_
    · cases ha with
      | declined _ => exact le_rfl
      | accepted _ _ => unfold sendAccept Daemon.noteXdmAuth; split <;> exact le_rfl
    · cases ha with
      | declined _ => exact le_rfl
      | accepted _ _ => unfold sendAccept Daemon.noteXdmAuth; split <;> exact le_rfl
  | @managed from_ m env p d s1 hp hsid hq ha hid hd =>
    have h1 := h.quiet hq
    refine h1.of_known (fun p' h' => ⟨p', ?_, .refl p'⟩) le_rfl (Nat.le_succ _)
    rcases h' with h' | ⟨e, he, hpe⟩
    · exact .inl (List.mem_filter.mp h').1
    · rcases List.mem_cons.mp he with rfl | he
      · cases hpe
        exact .inl (hq.protoDisplays ▸ findProtoDisplay_mem hp)
      · exact .inr ⟨e, he, hpe⟩

theorem reachable_numbered {conf : Conf} {access : Access} {now : Int} {t : Nat}
    (h : Reaches (Kdm.Xdmcp.step b crypt) (· = initXdmcp conf access now t) C s) :
    Numbered (t % 0x8000 * 16000) s :=
  h.invariant (fun s hs => by rw [show s = _ from hs]; exact .initial)
    fun _ _ _ hi _ hs => hi.step hs

/-! ## The property -/

/-- At most one proto display for a source, a MANAGE that creates a display does it for the proto
display with its session ID, which was sent in an ACCEPT and is not over yet, and no proto display
gave rise to two displays. -/
structure SessionSafe (b : Build) (crypt : Crypt) (s : Daemon) : Prop where
  unique : s.protoDisplays.Pairwise fun p q =>
    ¬ (addressEqual p.address q.address = true ∧ p.displayNumber = q.displayNumber)
  manage : ∀ from_ m env s' d, step b crypt (.packet from_ (.manage m) env) s = some s' →
    d ∈ s'.displays → (∀ d0 ∈ s.displays, d0.id ≠ d.id) →
    ∃ p ∈ s.protoDisplays, p.isFor from_ m.displayNumber = true ∧ p.sessionID = m.sessionID ∧
      d.sessionID = m.sessionID ∧ Offered s p ∧ (∀ e ∈ s.log, e.ends ≠ some p.id) ∧
      ∀ q ∈ s'.protoDisplays, q.id ≠ p.id
  once : (s.log.filterMap Entry.created).Nodup

/-- A MANAGE for a proto display that a display was created for is ignored or refused. -/
def RepeatSafe (b : Build) (crypt : Crypt) (s : Daemon) : Prop :=
  ∀ p d, Entry.managed p d ∈ s.log → ∀ from_ m env, p.isFor from_ m.displayNumber = true →
    m.sessionID = p.sessionID →
    step b crypt (.packet from_ (.manage m) env) s = some s ∨
      step b crypt (.packet from_ (.manage m) env) s = some (s.send from_ (.refuse m.sessionID))

theorem Tables.sessionSafe (h : Tables none s) : SessionSafe b crypt s where
  unique := by
    have hp := List.pairwise_map.mp h.sources
    refine hp.imp fun hne hpq => hne ?_
    rw [ProtoDisplay.source, ProtoDisplay.source, addressEqual_iff.mp hpq.1, hpq.2]
  manage from_ m env s' d hs hd hnew := by
    rcases manage_cases hs with ⟨hq, -, hn⟩ | ⟨p, d', s1, hp, hsid, hq, -, hn, hid, hfor, rfl⟩
    · rcases hq.displays d hd with ⟨d0, h0, he⟩ | ⟨hi, hlt, -⟩
      · exact absurd (by rw [he]) (hnew d0 h0)
      · omega
    · have hmem := findProtoDisplay_mem hp
      refine ⟨p, hmem, isFor_iff.mpr (findProtoDisplay_source hp), hsid, ?_, h.offered p hmem (by simp),
        h.live p hmem, fun q hq hi => ?_⟩
      · rcases List.mem_cons.mp hd with rfl | hd
        · exact hfor.sessionID.trans hsid
        · rcases hq.displays d hd with ⟨d0, h0, he⟩ | ⟨hi, hlt, -⟩
          · exact absurd (by rw [he]) (hnew d0 h0)
          · omega
      · have hne := (List.mem_filter.mp hq).2
        rw [bne_iff_ne] at hne
        exact hne hi
  once := h.once

theorem RepeatSafe.of_numbered (ht : Tables none s) (hn : Numbered base s)
    (hb : s.globalSessionID < base + 2 ^ 32) : RepeatSafe b crypt s := by
  intro p d hlog from_ m env hfor hsid
  show Kdm.Xdmcp.manage env from_ m s = some s ∨
    Kdm.Xdmcp.manage env from_ m s = some (s.send from_ (.refuse m.sessionID))
  unfold Kdm.Xdmcp.manage
  split
  · exact .inl rfl
  split
  · split
    · exact .inl rfl
    · exact .inr rfl
  · rename_i q hq
    -- the proto display in the table is a younger one, with another session ID
    have hmem := findProtoDisplay_mem hq
    have hid : q.id ≠ p.id := fun hi => ht.live q hmem _ hlog (by rw [hi]; rfl)
    have hne : q.sessionID ≠ p.sessionID := fun he =>
      hid ((hn.distinct hb q p (.inl hmem) (.inr ⟨_, hlog, rfl⟩)).mpr he)
    rw [if_pos (by rw [hsid]; exact hne)]
    exact .inr rfl

/-- **XDMCP session safety**, while fewer than `2 ^ 32` session IDs were drawn. -/
theorem reachable_sessions {conf : Conf} {access : Access} {now : Int} {t : Nat}
    (h : Reaches (step b crypt) (· = initXdmcp conf access now t) (fun _ _ => True) s) :
    SessionSafe b crypt s ∧
      (s.globalSessionID < (initXdmcp conf access now t).globalSessionID + 2 ^ 32 →
        RepeatSafe b crypt s) :=
  ⟨(reachable_tables h).sessionSafe,
    .of_numbered (reachable_tables h) (reachable_numbered h)⟩

/-! ## Declined requests use up session IDs -/

def Entry.isAccept : Entry → Bool
  | .accept _ _ _ => true
  | _ => false
namespace Sample

/-- A REQUEST that offers no authorization, and one that offers an unknown one. -/
def plain : Event := .packet client (.request (request [] 19)) {}
def unknown : Event := .packet client (.request (request [[88]] 22)) {}

def named : Env := { hostName := some [104] }

/-- A MANAGE for session 1. -/
def manage : Event := .packet client (.manage ⟨1, 0, [], 8⟩) named

end Sample

/-- The proto display that a REQUEST opens. -/
def Sample.opened (s : Daemon) : ProtoDisplay where
  id := s.nextId
  address := Sample.client
  displayNumber := 0
  connectionType := FamilyInternet
  connectionAddress := [192, 168, 0, 2]
  date := unsignedLong s.now
  sessionID := UInt32.ofNat (s.globalSessionID + 1)
  authenticationData := none
  key := none
  fileAuthorization := none
  xdmcpAuthorization := none

/-- Nothing but REQUESTs happened: the log grew by `k` ACCEPTs. -/
structure Requested (s s' : Daemon) (k : Nat) : Prop where
  choices : s'.choices = s.choices
  log : ∃ l, s'.log = l ++ s.log ∧ l.countP Entry.isAccept = k

/-- A REQUEST that is declined uses up a session ID. -/
theorem step_unknown (h : s.protoDisplays = []) :
    ∃ s', step Sample.build Sample.cipher Sample.unknown s = some s' ∧ s'.protoDisplays = [] ∧
      s'.globalSessionID = s.globalSessionID + 1 ∧ Requested s s' 0 := by
  obtain ⟨conf, access, now, lastscan, g, n, ps, ds, cs, log⟩ := s
  cases h
  refine ⟨_, rfl, ?_, rfl, rfl, [_, _], rfl, rfl⟩
  show [Sample.opened ⟨conf, access, now, lastscan, g, n, [], ds, cs, log⟩].filter (·.id != n) = []
  exact List.filter_eq_nil_iff.mpr (by simp [Sample.opened])

theorem step_plain (h : s.protoDisplays = []) :
    ∃ s', step Sample.build Sample.cipher Sample.plain s = some s' ∧
      s'.protoDisplays = [Sample.opened s] ∧ s'.globalSessionID = s.globalSessionID + 1 ∧
      Requested s s' 1 := by
  obtain ⟨conf, access, now, lastscan, g, n, ps, ds, cs, log⟩ := s
  cases h
  refine ⟨_, rfl, ?_, rfl, rfl, [_], rfl, rfl⟩
  exact congrArg (· :: []) (if_pos rfl)

/-- The proto display is managed. -/
theorem step_manage {s0 : Daemon} (h : s.protoDisplays = [Sample.opened s0])
    (hid : (Sample.opened s0).sessionID = 1) (hc : s.choices = []) :
    ∃ s' d, step Sample.build Sample.cipher Sample.manage s = some s' ∧
      s'.protoDisplays = [] ∧ s'.choices = [] ∧ s'.globalSessionID = s.globalSessionID ∧
      s'.log = .managed (Sample.opened s0) d :: s.log := by
  have hfind : findProtoDisplay s Sample.client 0 = some (Sample.opened s0) := by
    unfold findProtoDisplay
    rw [h]
    rfl
  have hrun : step Sample.build Sample.cipher Sample.manage s =
      createDisplay Sample.named Sample.client ⟨1, 0, [], 8⟩ [104] (Sample.opened s0)
        (stopActive Sample.named [104] s) := by
    show Kdm.Xdmcp.manage Sample.named Sample.client ⟨1, 0, [], 8⟩ s = _
    unfold Kdm.Xdmcp.manage
    rw [if_neg (by decide)]
    dsimp only
    rw [hfind]
    dsimp only
    rw [if_neg (not_not.mpr hid)]
    rfl
  have hstop : (stopActive Sample.named [104] s).choices = [] ∧
      (stopActive Sample.named [104] s).globalSessionID = s.globalSessionID ∧
      (stopActive Sample.named [104] s).protoDisplays = [Sample.opened s0] ∧
      (stopActive Sample.named [104] s).log = s.log := by
    unfold stopActive
    split
    · exact ⟨hc, rfl, h, rfl⟩
    · exact ⟨hc, rfl, h, rfl⟩
  obtain ⟨h1, h2, h3, h4⟩ := hstop
  rw [hrun]
  unfold createDisplay Choices.checkIndirectChoice
  rw [h1]
  refine ⟨_, _, rfl, ?_, rfl, h2, congrArg (_ :: ·) h4⟩
  show (stopActive _ _ s).protoDisplays.filter _ = []
  rw [h3]
  exact List.filter_eq_nil_iff.mpr (by simp)

/-- Any number of declined REQUESTs. -/
theorem reach_declines {init : Daemon → Prop} (n : Nat) :
    ∀ {s : Daemon}, Reaches (step Sample.build Sample.cipher) init (fun _ _ => True) s →
      s.protoDisplays = [] →
      ∃ s', Reaches (step Sample.build Sample.cipher) init (fun _ _ => True) s' ∧
        s'.protoDisplays = [] ∧ s'.globalSessionID = s.globalSessionID + n ∧ Requested s s' 0 := by
  induction n with
  | zero => exact fun {s} h hp => ⟨s, h, hp, rfl, rfl, [], rfl, rfl⟩
  | succ n ih =>
    intro s h hp
    obtain ⟨s1, hs, hp1, hg1, hc1, l1, hl1, hn1⟩ := step_unknown hp
    obtain ⟨s2, hr, hp2, hg2, hc2, l2, hl2, hn2⟩ := ih (h.next trivial hs) hp1
    refine ⟨s2, hr, hp2, by omega, hc2.trans hc1, l2 ++ l1, ?_, ?_⟩
    · rw [hl2, hl1, List.append_assoc]
    · rw [List.countP_append, hn1, hn2]

/-- A display was created, and a repeated MANAGE for it changes nothing. -/
theorem sessions_managed : ∃ s p d, Entry.managed p d ∈ s.log ∧
    SessionSafe Sample.build Sample.cipher s ∧ RepeatSafe Sample.build Sample.cipher s := by
  obtain ⟨s1, hs1, hp1, hg1, hc1, -⟩ :=
    step_plain (s := initXdmcp Sample.conf Sample.access 0 0) rfl
  obtain ⟨s2, d, hs2, -, -, hg2, hl2⟩ := step_manage hp1 rfl hc1
  have hr : Reaches (step Sample.build Sample.cipher)
      (· = initXdmcp Sample.conf Sample.access 0 0) (fun _ _ => True) s2 :=
    Reaches.next (Reaches.next ⟨[], .start rfl⟩ trivial hs1) trivial hs2
  have hb : s2.globalSessionID <
      (initXdmcp Sample.conf Sample.access 0 0).globalSessionID + 2 ^ 32 := by
    rw [hg2, hg1]
    omega
  exact ⟨s2, _, d, hl2 ▸ List.mem_cons_self, (reachable_sessions hr).1, (reachable_sessions hr).2 hb⟩

/-- After `2 ^ 32 - 1` declined REQUESTs the session ID of the first session is used again, and a
copy of its MANAGE starts the second one: two REQUESTs were accepted. -/
theorem repeated_manage_after_declines :
    ¬ ∀ b crypt conf access now t s,
      Reaches (step b crypt) (· = initXdmcp conf access now t) (fun _ _ => True) s →
      s.log.countP Entry.isAccept < 2 ^ 32 → RepeatSafe b crypt s := by
  intro h
  obtain ⟨n, hn⟩ : ∃ n, n + 1 = 2 ^ 32 := ⟨4294967295, rfl⟩
  -- the first session
  have hr0 : Reaches (step Sample.build Sample.cipher)
      (· = initXdmcp Sample.conf Sample.access 0 0) (fun _ _ => True)
      (initXdmcp Sample.conf Sample.access 0 0) := ⟨[], .start rfl⟩
  obtain ⟨s1, hs1, hp1, hg1, hc1, l1, hl1, hn1⟩ :=
    step_plain (s := initXdmcp Sample.conf Sample.access 0 0) rfl
  obtain ⟨s2, d, hs2, hp2, hc2, hg2, hl2⟩ := step_manage hp1 rfl hc1
  -- the declined REQUESTs
  obtain ⟨s3, hr3, hp3, hg3, hc3, l3, hl3, hn3⟩ :=
    reach_declines n ((hr0.next trivial hs1).next trivial hs2) hp2
  -- the second session
  obtain ⟨s4, hs4, hp4, -, hc4, l4, hl4, hn4⟩ := step_plain hp3
  have hid : (Sample.opened s3).sessionID = 1 := by
    show UInt32.ofNat (s3.globalSessionID + 1) = 1
    have hg : s3.globalSessionID + 1 = 2 ^ 32 + 1 := by
      rw [hg3, hg2, hg1, ← hn, show (initXdmcp Sample.conf Sample.access 0 0).globalSessionID = 0 from rfl]
      omega
    rw [hg]
    decide
  obtain ⟨s5, d5, hs5, hp5, -⟩ := step_manage hp4 hid (hc4.trans (hc3.trans hc2))
  have hmem : Entry.managed (Sample.opened (initXdmcp Sample.conf Sample.access 0 0)) d ∈ s4.log := by
    rw [hl4, hl3, hl2]
    simp
  have hcount : s4.log.countP Entry.isAccept < 2 ^ 32 := by
    rw [hl4, hl3, hl2, hl1, List.countP_append, List.countP_append, List.countP_cons,
      List.countP_append, hn4, hn3, hn1]
    simp [Entry.isAccept, initXdmcp]
  rcases h _ _ _ _ _ _ _ (hr3.next trivial hs4) hcount _ _ hmem Sample.client ⟨1, 0, [], 8⟩
    Sample.named rfl rfl with hs | hs
  · cases hs.symm.trans hs5
    rw [hp4] at hp5
    cases hp5
  · cases hs.symm.trans hs5
    rw [show (s4.send Sample.client (.refuse 1)).protoDisplays = s4.protoDisplays from rfl, hp4] at hp5
    cases hp5

end Kdm.Xdmcp
