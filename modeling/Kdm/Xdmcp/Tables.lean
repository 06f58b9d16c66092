import Mathlib.Data.List.Nodup
import Kdm.Xdmcp.Effects

/-!
# The table of proto displays

What holds of the proto displays in every state that the XDMCP service reaches: no two are for
the same source and display number, each was answered with an ACCEPT, and none of them is over
(`Tables`, `reachable_tables`).
-/

namespace Kdm.Xdmcp

open Runs

variable {b : Build} {crypt : Crypt} {env : Env} {from_ : Sockaddr} {r : Request} {m : Manage}
  {s s' s1 : Daemon} {e : Event} {p p' : ProtoDisplay} {d : Display} {q : Option Nat}
  {C : Daemon → Event → Prop}

/-- The source of a proto display, as `addressEqual` compares it, and its display number. -/
def ProtoDisplay.source (p : ProtoDisplay) : (Nat × Bytes × Bytes) × UInt16 :=
  (p.address.key, p.displayNumber)

theorem isFor_iff {n : UInt16} : p.isFor from_ n = true ↔ p.source = (from_.key, n) := by
  unfold ProtoDisplay.isFor ProtoDisplay.source
  rw [Bool.and_eq_true, beq_iff_eq, addressEqual_iff, Prod.mk.injEq (p.address.key), and_comm,
    eq_comm (a := p.address.key)]

theorem ProtoDisplay.Same.source (h : p.Same p') : p'.source = p.source := by
  unfold ProtoDisplay.source
  rw [h.address, h.displayNumber]

theorem findProtoDisplay_mem {n : UInt16} (h : findProtoDisplay s from_ n = some p) :
    p ∈ s.protoDisplays := List.mem_of_find?_eq_some h

theorem findProtoDisplay_source {n : UInt16} (h : findProtoDisplay s from_ n = some p) :
    p.source = (from_.key, n) := by
  have h : s.protoDisplays.find? (·.isFor from_ n) = some p := h
  have hf := List.find?_some h
  exact isFor_iff.mp hf

theorem findProtoDisplay_none {n : UInt16} (h : findProtoDisplay s from_ n = none) :
    ∀ p ∈ s.protoDisplays, p.source ≠ (from_.key, n) := fun p hp hs =>
  List.find?_eq_none.mp h p hp (isFor_iff.mpr hs)

/-! ## The log of a proto display -/

/-- The entry says that a proto display is over. -/
def Entry.ends : Entry → Option Nat
  | .timedOut p | .declined p | .managed p _ => some p.id
  | .accept _ _ _ | .sent _ _ | .xdmAuth _ => none

/-- The entry says that a display was created for a proto display. -/
def Entry.created : Entry → Option Nat
  | .managed p _ => some p.id
  | _ => none

theorem Entry.ends_of_created {e : Entry} {i : Nat} (h : e.created = some i) : e.ends = some i := by
  cases e with
  | managed p d => exact h
  | _ => cases h

theorem Entry.proto_of_ends {e : Entry} {i : Nat} (h : e.ends = some i) :
    ∃ p, e.proto = some p ∧ p.id = i := by
  cases e with
  | timedOut p | declined p | managed p d => exact ⟨p, rfl, Option.some.inj h⟩
  | _ => cases h

theorem Entry.ends_of_proto {e : Entry} (h : e.proto = none) : e.ends = none := by
  cases e with
  | sent dest reply => rfl
  | _ => cases h

theorem Entry.created_of_proto {e : Entry} (h : e.proto = none) : e.created = none := by
  cases e with
  | sent dest reply => rfl
  | _ => cases h

/-- An ACCEPT with the session ID of the proto display was sent to its source. -/
def Offered (s : Daemon) (p : ProtoDisplay) : Prop :=
  ∃ dest p0 a, Entry.accept dest p0 a ∈ s.log ∧ p0.Same p ∧ a.sessionID = p.sessionID ∧
    dest.key = p.address.key

/-- The tables are in order; the proto display `q` is still to be answered. -/
structure Tables (q : Option Nat) (s : Daemon) : Prop where
  ids : (s.protoDisplays.map (·.id)).Nodup
  sources : (s.protoDisplays.map (·.source)).Nodup
  fresh : ∀ p ∈ s.protoDisplays, p.id < s.nextId
  logged : ∀ e ∈ s.log, ∀ p, e.proto = some p → p.id < s.nextId
  live : ∀ p ∈ s.protoDisplays, ∀ e ∈ s.log, e.ends ≠ some p.id
  offered : ∀ p ∈ s.protoDisplays, some p.id ≠ q → Offered s p
  once : (s.log.filterMap Entry.created).Nodup

theorem Tables.initial {conf : Conf} {access : Access} {now : Int} {t : Nat} :
    Tables none (initXdmcp conf access now t) where
  ids := List.nodup_nil
  sources := List.nodup_nil
  fresh _ h := by cases h
  logged _ h := by cases h
  live _ h := by cases h
  offered _ h := by cases h
  once := List.nodup_nil

theorem Tables.weaken (h : Tables none s) : Tables q s :=
  ⟨h.ids, h.sources, h.fresh, h.logged, h.live, fun p hp _ => h.offered p hp nofun, h.once⟩

/-- Two proto displays with one identity are one. -/
theorem Tables.eq_of_id (h : Tables q s) (hp : p ∈ s.protoDisplays) (hp' : p' ∈ s.protoDisplays)
    (hid : p.id = p'.id) : p = p' := List.inj_on_of_nodup_map h.ids hp hp' hid

theorem Offered.mono {l : List Entry} (hl : s'.log = l ++ s.log) (h : Offered s p) :
    Offered s' p := by
  obtain ⟨dest, p0, a, hmem, hrest⟩ := h
  exact ⟨dest, p0, a, hl ▸ List.mem_append_right l hmem, hrest⟩

/-- **Some of the proto displays go and the log grows.** -/
theorem Tables.drop {f : ProtoDisplay → Bool} {l : List Entry} (h : Tables q s)
    (hp : s'.protoDisplays = s.protoDisplays.filter f) (hn : s.nextId ≤ s'.nextId)
    (hl : s'.log = l ++ s.log)
    (hends : ∀ e ∈ l, ∀ p ∈ s'.protoDisplays, e.ends ≠ some p.id)
    (hlog : ∀ e ∈ l, ∀ p, e.proto = some p → p.id < s'.nextId)
    (honce : (l.filterMap Entry.created ++ s.log.filterMap Entry.created).Nodup) :
    Tables q s' := by
  have hmem (p : ProtoDisplay) (hp' : p ∈ s'.protoDisplays) : p ∈ s.protoDisplays := by
    rw [hp] at hp'
    exact (List.mem_filter.mp hp').1
  have hsub : s'.protoDisplays.Sublist s.protoDisplays := hp ▸ List.filter_sublist
  refine ⟨h.ids.sublist (hsub.map _), h.sources.sublist (hsub.map _),
    fun p hp' => lt_of_lt_of_le (h.fresh p (hmem p hp')) hn, ?_, ?_, ?_, ?_⟩
  · intro e he p hpe
    rw [hl] at he
    rcases List.mem_append.mp he with he | he
    · exact hlog e he p hpe
    · exact lt_of_lt_of_le (h.logged e he p hpe) hn
  · intro p hp' e he
    rw [hl] at he
    rcases List.mem_append.mp he with he | he
    · exact hends e he p hp'
    · exact h.live p (hmem p hp') e he
  · exact fun p hp' hq => (h.offered p (hmem p hp') hq).mono hl
  · rw [hl, List.filterMap_append]
    exact honce

theorem Tables.quiet (h : Tables q s) (hq : Quiet s s') : Tables q s' := by
  obtain ⟨l, hl, hno⟩ := hq.log
  refine h.drop (f := fun _ => true) (by rw [hq.protoDisplays, List.filter_true]) hq.nextId hl ?_ ?_ ?_
  · intro e he p _
    rw [Entry.ends_of_proto (hno e he)]
    exact nofun
  · intro e he p hp
    rw [hno e he] at hp
    cases hp
  · have hnil : l.filterMap Entry.created = [] :=
      List.filterMap_eq_nil_iff.mpr fun e he => Entry.created_of_proto (hno e he)
    rw [hnil]
    exact h.once

/-- The old proto displays time out. -/
theorem Tables.drawn (h : Tables none s) : Tables none (drawn s) := by
  refine h.drop (f := fun p => !p.expired s.now) rfl le_rfl rfl ?_ ?_ ?_
  · intro e he p hp hends
    obtain ⟨p0, h0, rfl⟩ := List.mem_map.mp he
    obtain ⟨hp, hne⟩ := List.mem_filter.mp hp
    obtain ⟨h0, hexp⟩ := List.mem_filter.mp h0
    have hexp : p0.expired s.now = true := hexp
    have hne : (!p.expired s.now) = true := hne
    have hid : p0.id = p.id := Option.some.inj hends
    rw [← h.eq_of_id h0 hp hid, hexp] at hne
    cases hne
  · intro e he p hp
    obtain ⟨p0, h0, rfl⟩ := List.mem_map.mp he
    cases hp
    exact h.fresh _ (List.mem_filter.mp h0).1
  · have hnil : ((s.protoDisplays.filter (·.expired s.now)).map Entry.timedOut).filterMap
        Entry.created = [] := by
      refine List.filterMap_eq_nil_iff.mpr fun e he => ?_
      obtain ⟨p0, -, rfl⟩ := List.mem_map.mp he
      rfl
    exact (congrArg (fun l => (l ++ s.log.filterMap Entry.created).Nodup) hnil).mpr h.once

/-! ## Opening, answering and managing -/

theorem Tables.opened (h : Tables none s) (ho : Opened s from_ r p s1) :
    Tables (some p.id) s1 ∧ p ∈ s1.protoDisplays ∧ p.source = (from_.key, r.displayNumber) := by
  cases ho with
  | found hp => exact ⟨h.weaken, findProtoDisplay_mem hp, findProtoDisplay_source hp⟩
  | new hnone hid haddr hnum hsid hauth hkey =>
    have hd := h.drawn
    have hsource : p.source = (from_.key, r.displayNumber) := by
      rw [ProtoDisplay.source, haddr, hnum]
    refine ⟨⟨?_, ?_, ?_, ?_, ?_, ?_, hd.once⟩, List.mem_cons_self, hsource⟩
    · refine List.nodup_cons.mpr ⟨fun hmem => ?_, hd.ids⟩
      obtain ⟨p0, h0, hi⟩ := List.mem_map.mp hmem
      have hi : p0.id = p.id := hi
      have hlt : p0.id < s.nextId := hd.fresh p0 h0
      omega
    · refine List.nodup_cons.mpr ⟨fun hmem => ?_, hd.sources⟩
      obtain ⟨p0, h0, hi⟩ := List.mem_map.mp hmem
      exact findProtoDisplay_none hnone p0 (List.mem_filter.mp h0).1 (hi.trans hsource)
    · intro p0 h0
      rcases List.mem_cons.mp h0 with rfl | h0
      · exact hid ▸ Nat.lt_succ_self _
      · exact lt_trans (hd.fresh p0 h0) (Nat.lt_succ_self _)
    · exact fun e he p0 h0 => lt_trans (hd.logged e he p0 h0) (Nat.lt_succ_self _)
    · intro p0 h0 e he hends
      rcases List.mem_cons.mp h0 with rfl | h0
      · obtain ⟨p1, h1, hi⟩ := Entry.proto_of_ends hends
        have hlt : p1.id < s.nextId := hd.logged e he p1 h1
        omega
      · exact hd.live p0 h0 e he hends
    · intro p0 h0 hne
      rcases List.mem_cons.mp h0 with rfl | h0
      · exact absurd rfl hne
      · exact hd.offered p0 h0 nofun

theorem Tables.disposed {e : Entry} (h : Tables q s) (hp : p ∈ s.protoDisplays)
    (hn : s.nextId ≤ s'.nextId) (hid : p'.id = p.id)
    (hs : s'.protoDisplays = s.protoDisplays.filter (·.id != p.id)) (hl : s'.log = e :: s.log)
    (hproto : e.proto = some p') :
    Tables q s' := by
  refine h.drop (l := [e]) hs hn hl ?_ ?_ ?_
  · intro e' he p0 h0 hends
    cases List.mem_singleton.mp he
    rw [hs] at h0
    obtain ⟨p1, h1, hi⟩ := Entry.proto_of_ends hends
    cases hproto.symm.trans h1
    have hne := (List.mem_filter.mp h0).2
    rw [bne_iff_ne] at hne
    exact hne (hi.symm.trans hid)
  · intro e' he p0 h0
    cases List.mem_singleton.mp he
    cases hproto.symm.trans h0
    exact lt_of_lt_of_le (hid ▸ h.fresh p hp) hn
  · rw [List.filterMap_cons]
    split
    · exact h.once
    · rename_i i hi
      refine List.nodup_cons.mpr ⟨fun hmem => ?_, h.once⟩
      obtain ⟨e', he', hi'⟩ := List.mem_filterMap.mp hmem
      obtain ⟨p1, h1, hi1⟩ := Entry.proto_of_ends (Entry.ends_of_created hi)
      cases hproto.symm.trans h1
      refine h.live p hp e' he' ?_
      rw [Entry.ends_of_created hi', ← hi1, hid]

/-- The proto display is answered: what was written is about it. -/
theorem Tables.accepted {a : Accept} (h : Tables (some p.id) s1) (hp : p ∈ s1.protoDisplays)
    (hs : p.Same p') (hn : s'.nextId = s1.nextId)
    (hw : s'.protoDisplays = (s1.write p').protoDisplays)
    (hl : ∃ l, s'.log = .accept from_ p' a :: l ++ s1.log ∧
      ∀ e ∈ l, e.ends = none ∧ ∀ p0, e.proto = some p0 → p0.id = p.id)
    (ha : a.sessionID = p'.sessionID) (hfrom : from_.key = p.address.key) : Tables none s' := by
  obtain ⟨l, hl, hno⟩ := hl
  have hmem (p0 : ProtoDisplay) (h0 : p0 ∈ s'.protoDisplays) :
      p0 = p' ∨ p0 ∈ s1.protoDisplays ∧ p0.id ≠ p.id := by
    rw [hw] at h0
    obtain ⟨p1, h1, rfl⟩ := List.mem_map.mp h0
    split
    · exact .inl rfl
    · rename_i hne
      exact .inr ⟨h1, fun hi => hne (hi.trans hs.id.symm)⟩
  have hnolog (e : Entry) (he : e ∈ s'.log) : e ∈ s1.log ∨
      e.ends = none ∧ ∀ p0, e.proto = some p0 → p0.id = p.id := by
    rw [hl] at he
    rcases List.mem_append.mp he with he | he
    · rcases List.mem_cons.mp he with rfl | he
      · exact .inr ⟨rfl, fun p0 h0 => by cases h0; exact hs.id⟩
      · exact .inr (hno e he)
    · exact .inl he
  have hids : s'.protoDisplays.map (·.id) = s1.protoDisplays.map (·.id) := by
    rw [hw, Daemon.write, List.map_map]
    refine List.map_congr_left fun p0 _ => ?_
    dsimp only [Function.comp]
    split
    · rename_i hi; exact hi.symm
    · rfl
  have hsources : s'.protoDisplays.map (·.source) = s1.protoDisplays.map (·.source) := by
    rw [hw, Daemon.write, List.map_map]
    refine List.map_congr_left fun p0 h0 => ?_
    dsimp only [Function.comp]
    split
    · rename_i hi
      rw [h.eq_of_id h0 hp (hi.trans hs.id), hs.source]
    · rfl
  refine ⟨hids ▸ h.ids, hsources ▸ h.sources, ?_, ?_, ?_, ?_, ?_⟩
  · intro p0 h0
    rw [hn]
    rcases hmem p0 h0 with rfl | ⟨h0, -⟩
    · exact hs.id ▸ h.fresh p hp
    · exact h.fresh p0 h0
  · intro e he p0 h0
    rw [hn]
    rcases hnolog e he with he | ⟨-, hpr⟩
    · exact h.logged e he p0 h0
    · exact hpr p0 h0 ▸ h.fresh p hp
  · intro p0 h0 e he hends
    rcases hnolog e he with he | ⟨hno', -⟩
    · rcases hmem p0 h0 with rfl | ⟨h0, -⟩
      · exact h.live p hp e he (hs.id ▸ hends)
      · exact h.live p0 h0 e he hends
    · rw [hno'] at hends
      cases hends
  · intro p0 h0 _
    rcases hmem p0 h0 with rfl | ⟨h0, hne⟩
    · refine ⟨from_, p0, a, ?_, .refl p0, ha, hfrom.trans (by rw [hs.address])⟩
      rw [hl]
      exact List.mem_cons_self
    · exact (h.offered p0 h0 fun hi => hne (Option.some.inj hi)).mono hl
  · have hnil : (Entry.accept from_ p' a :: l).filterMap Entry.created = [] := by
      refine List.filterMap_eq_nil_iff.mpr fun e he => ?_
      rcases List.mem_cons.mp he with rfl | he
      · rfl
      · cases hc : e.created with
        | none => rfl
        | some i => exact absurd ((hno e he).1.symm.trans (Entry.ends_of_created hc)) nofun
    rw [hl, List.filterMap_append, hnil]
    exact h.once

theorem Tables.answered (h : Tables (some p.id) s1) (hp : p ∈ s1.protoDisplays)
    (hsource : p.source = (from_.key, r.displayNumber))
    (ha : Answered b crypt env from_ r p s1 s') : Tables none s' := by
  cases ha with
  | @declined reason data p1 hs =>
    have hd : Tables (some p.id) (declineDisplay from_ r reason data p1 s1) :=
      (h.quiet (.send s1 from_ (.decline reason r.authenticationName data))).disposed
        hp le_rfl hs.id (by rw [← hs.id]; rfl) rfl rfl
    refine ⟨hd.ids, hd.sources, hd.fresh, hd.logged, hd.live, fun p0 h0 _ => ?_, hd.once⟩
    refine hd.offered p0 h0 fun hi => ?_
    have hne := (List.mem_filter.mp h0).2
    rw [bne_iff_ne, hs.id] at hne
    exact hne (Option.some.inj hi)
  | @accepted j data p1 hj hc =>
    have h1 := checkAuthentication_same b crypt env r p
    rw [hc] at h1
    have h2 := authorizeDisplay_same b crypt env r.authorizationNames[j]? p1
    refine h.accepted (a := acceptPacket r data
      (authorizeDisplay b crypt env r.authorizationNames[j]? p1).1 _) hp (h1.trans h2) ?_ ?_ ?_ rfl
      (congrArg Prod.fst hsource).symm
    · unfold sendAccept Daemon.noteXdmAuth
      split <;> rfl
    · unfold sendAccept Daemon.noteXdmAuth
      split <;> rfl
    · unfold sendAccept Daemon.noteXdmAuth
      split
      · refine ⟨[.xdmAuth p1], rfl, fun e he => ?_⟩
        cases List.mem_singleton.mp he
        exact ⟨rfl, fun p0 h0 => by cases h0; exact h1.id⟩
      · exact ⟨[], rfl, by simp⟩

theorem Tables.step (h : Tables none s) (hs : step b crypt e s = some s') : Tables none s' := by
  cases step_effect hs with
  | quiet hq _ => exact h.quiet hq
  | starved reason => exact h.drawn.quiet (.send _ _ _)
  | answered ho ha =>
    obtain ⟨h1, hp, hsource⟩ := h.opened ho
    exact h1.answered hp hsource ha
  | @managed from_ m env p d s1 hp hsid hq ha hid hd =>
    refine (h.quiet hq).disposed (p := p) ?_ (Nat.le_succ _) rfl rfl rfl rfl
    rw [hq.protoDisplays]
    exact findProtoDisplay_mem hp

/-- **The tables of every state that the service reaches are in order.** -/
theorem reachable_tables {conf : Conf} {access : Access} {now : Int} {t : Nat}
    (h : Reaches (step b crypt) (· = initXdmcp conf access now t) C s) : Tables none s :=
  h.invariant (fun s hs => by rw [show s = _ from hs]; exact .initial)
    fun _ _ _ hi _ hs => hi.step hs

end Kdm.Xdmcp
