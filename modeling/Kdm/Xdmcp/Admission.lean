import Kdm.Xdmcp.Tables

/-!
# Access control of XDMCP sessions

The Xaccess database is consulted for queries only.  In the runs in which every REQUEST that
opens a session comes from a client that the database grants access to, and in which no reload
takes the access from a client with an open session, displays are created for clients with access
only (`reachable_granted`).  A client that sends its REQUEST without a query gets a session in any
case (`not_granted`).
-/

namespace Kdm.Xdmcp

open Runs

variable {b : Build} {crypt : Crypt} {env : Env} {from_ : Sockaddr} {r : Request} {m : Manage}
  {s s' s1 : Daemon} {e : Event} {p p' : ProtoDisplay} {d : Display} {x : Access}

/-- The database lets the client in: a direct entry that matches first is not negated, or an
indirect one that uses the chooser or lists the local host. -/
def Access.Grants (x : Access) (k : Client) : Prop :=
  (∃ e, x.matchAclEntry k.addr k.connectionType true = some (some e) ∧ e.a_notAllowed = false) ∨
  ∃ e, x.matchAclEntry k.addr k.connectionType false = some (some e) ∧ e.a_notAllowed = false ∧
    (e.a_useChooser = true ∨ ∃ calls, scanHostlist x.acc k.connectionType false
      (some x.localAddress) x.stackDepth (x.acc.slice e.hosts e.nhosts) = some (calls, true))

/-- A REQUEST that is well formed, names a supported connection type and offers an authorization
that the daemon supports, or none. -/
structure Request.Valid (b : Build) (r : Request) : Prop where
  length : r.expectlen = r.length
  connection : (selectConnectionTypeIndex r.connectionTypes).isSome
  addresses : r.connectionAddresses.length = r.connectionTypes.length
  authorization : (authorizationIndex b r).isSome

/-- What the code leaves to the client and to the administrator. -/
structure AdmissionSafe (b : Build) (s : Daemon) (e : Event) : Prop where
  request : ∀ from_ r env, e = .packet from_ (.request r) env → r.Valid b →
    findProtoDisplay s from_ r.displayNumber = none → s.access.Grants (Client.ofAddr from_)
  reload : ∀ x, Loads s e x → ∀ p ∈ s.protoDisplays,
    s.access.Grants (Client.ofAddr p.address) → x.Grants (Client.ofAddr p.address)

theorem Client.ofAddr_of_key {a a' : Sockaddr} (h : a.key = a'.key) :
    Client.ofAddr a = Client.ofAddr a' := by
  unfold Client.ofAddr
  rw [convertAddr_of_key h, show netaddrPort a = netaddrPort a' from congrArg (fun k => k.2.1) h]

/-! ## Which REQUEST opens a session -/

theorem Answered.mem (h : Answered b crypt env from_ r p s1 s') (hp : p' ∈ s'.protoDisplays) :
    (authorizationIndex b r).isSome ∧ p.Same p' ∨ p' ∈ s1.protoDisplays ∧ p'.id ≠ p.id := by
  cases h with
  | @declined reason data p1 hs =>
    obtain ⟨hm, hne⟩ := List.mem_filter.mp hp
    rw [bne_iff_ne, hs.id] at hne
    exact .inr ⟨hm, hne⟩
  | @accepted j data p1 hj hc =>
    have h1 := checkAuthentication_same b crypt env r p
    rw [hc] at h1
    have h2 := h1.trans (authorizeDisplay_same b crypt env r.authorizationNames[j]? p1)
    have hpro : (s1.noteXdmAuth b r.authorizationNames[j]? p1).protoDisplays =
        s1.protoDisplays := by
      unfold Daemon.noteXdmAuth
      split <;> rfl
    obtain ⟨p0, h0, rfl⟩ := List.mem_map.mp hp
    rw [hpro] at h0
    split
    · exact .inl ⟨hj ▸ rfl, h2⟩
    · rename_i hne
      exact .inr ⟨h0, fun hi => hne (hi.trans h2.id.symm)⟩

theorem Answered.access (h : Answered b crypt env from_ r p s1 s') : s'.access = s1.access := by
  cases h with
  | declined _ => rfl
  | accepted _ _ => unfold sendAccept Daemon.noteXdmAuth; split <;> rfl

/-- **A REQUEST opens a session for its source, and only if it is valid.** -/
theorem requestRespond_mem (h : p' ∈ (requestRespond b crypt env from_ r s).protoDisplays) :
    (∃ p ∈ s.protoDisplays, p.Same p') ∨
    p'.address = from_ ∧ r.Valid b ∧ findProtoDisplay s from_ r.displayNumber = none := by
  unfold requestRespond at h
  split at h
  · exact .inl ⟨p', h, .refl p'⟩
  rename_i hlen
  split at h
  · exact .inl ⟨p', h, .refl p'⟩
  rename_i hconn
  split at h
  · rename_i p hp
    rcases answerRequest_cases.mem h with ⟨-, hs⟩ | ⟨hm, -⟩
    · exact .inl ⟨p, findProtoDisplay_mem hp, hs⟩
    · exact .inl ⟨p', hm, .refl p'⟩
  rename_i hnone
  simp only [isAccepting] at h
  split at h
  · exact .inl ⟨p', h, .refl p'⟩
  rename_i i hi
  have hvalid (ha : (authorizationIndex b r).isSome) : r.Valid b :=
    ⟨not_not.mp hlen, hi ▸ rfl, not_not.mp (not_or.mp hconn).2, ha⟩
  unfold newProtoDisplay at h
  dsimp only at h
  by_cases hm : (env.malloc .protoDisplay && env.malloc .protoAddress &&
      env.malloc .connectionAddress) = true
  · rw [if_pos hm] at h
    rcases answerRequest_cases.mem h with ⟨ha, hs⟩ | ⟨hmem, hne⟩
    · exact .inr ⟨hs.address, hvalid ha, hnone⟩
    · rcases List.mem_cons.mp hmem with rfl | hmem
      · exact absurd rfl hne
      · exact .inl ⟨p', (List.mem_filter.mp hmem).1, .refl p'⟩
  · rw [if_neg hm] at h
    exact .inl ⟨p', (List.mem_filter.mp h).1, .refl p'⟩

/-! ## The property -/

/-- Every open session belongs to a client with access. -/
def Admitted (s : Daemon) : Prop :=
  ∀ p ∈ s.protoDisplays, s.access.Grants (Client.ofAddr p.address)

theorem Opened.access (h : Opened s from_ r p s1) : s1.access = s.access := by
  cases h <;> rfl

/-- The sessions that are open behind a step belong to a client that had access before it. -/
theorem Effect.admitted (hc : AdmissionSafe b s e) (h : Admitted s) (hs : step b crypt e s = some s')
    (he : Effect b crypt s e s') : Admitted s' := by
  cases he with
  | quiet hq ha =>
    intro p hp
    rw [hq.protoDisplays] at hp
    rcases ha with ha | ha
    · rw [ha]
      exact h p hp
    · exact hc.reload _ ha p hp (h p hp)
  | starved reason => exact fun p hp => h p (List.mem_filter.mp hp).1
  | @answered from_ r env p s1 s' ho ha =>
    intro p' hp'
    cases hs
    rw [ha.access, ho.access]
    rcases requestRespond_mem hp' with ⟨p0, h0, hsame⟩ | ⟨haddr, hvalid, hnone⟩
    · rw [hsame.address]
      exact h p0 h0
    · rw [haddr]
      exact hc.request from_ r env rfl hvalid hnone
  | @managed from_ m env p d s1 hp hsid hq ha hid hd =>
    intro p' hp'
    have hmem := (List.mem_filter.mp hp').1
    rw [hq.protoDisplays] at hmem
    show s1.access.Grants _
    rw [ha]
    exact h p' hmem

/-- A display that a step creates belongs to an open session. -/
theorem Effect.created (h : Admitted s) (he : Effect b crypt s e s') (hd : d ∈ s'.displays)
    (hnew : ∀ d0 ∈ s.displays, d0.id ≠ d.id) (ho : d.displayType.origin = .dFromXDMCP) :
    s.access.Grants d.client := by
  -- what a quiet step creates has another origin
  have hquiet {s1 : Daemon} (hq : Quiet s s1) (hd : d ∈ s1.displays) : False := by
    rcases hq.displays d hd with ⟨d0, h0, hd0⟩ | ⟨-, -, -, hno⟩
    · exact hnew d0 h0 (by rw [hd0])
    · exact hno ho
  cases he with
  | quiet hq _ => exact (hquiet hq hd).elim
  | starved reason => exact absurd rfl (hnew d hd)
  | @answered from_ r env p s1 s' ho ha =>
    refine absurd rfl (hnew d ?_)
    have hs1 : s1.displays = s.displays := by cases ho <;> rfl
    rw [← hs1]
    cases ha with
    | declined _ => exact hd
    | accepted _ _ =>
      unfold sendAccept Daemon.noteXdmAuth at hd
      split at hd <;> exact hd
  | @managed from_ m env p d' s1 hp hsid hq ha hid hfor =>
    rcases List.mem_cons.mp hd with rfl | hd
    · rw [hfor.client, ← Client.ofAddr_of_key (congrArg Prod.fst (findProtoDisplay_source hp))]
      exact h p (findProtoDisplay_mem hp)
    · exact (hquiet hq hd).elim

/-- **Displays are created for clients with access only**, in the runs that meet
`AdmissionSafe`. -/
theorem reachable_granted {conf : Conf} {access : Access} {now : Int} {t : Nat}
    (h : Reaches (step b crypt) (· = initXdmcp conf access now t) (AdmissionSafe b) s)
    (hs : step b crypt e s = some s') (hd : d ∈ s'.displays)
    (hnew : ∀ d0 ∈ s.displays, d0.id ≠ d.id) (ho : d.displayType.origin = .dFromXDMCP) :
    s.access.Grants d.client := by
  have hadm : Admitted s := h.invariant
    (fun s hs p hp => by rw [show s = _ from hs] at hp; cases hp)
    fun _ _ _ hi hc hs => (step_effect hs).admitted hc hi hs
  exact (step_effect hs).created hadm hd hnew ho

/-! ## The two cases -/

namespace Sample

/-- A REQUEST that offers no authorization, and a MANAGE for session 1. -/
def enter : List Event :=
  [.packet client (.request (request [] 19)) {},
    .packet client (.manage ⟨1, 0, [], 8⟩) { hostName := some [104] }]

/-- A database that lets everybody in. -/
def openAccess : Access :=
  { access with acc := ⟨[.pattern [42]], [], [], [⟨0, 1, 0, 0, false, false⟩]⟩ }

/-- The state behind the REQUEST. -/
def requested (x : Access) : Daemon :=
  requestRespond build cipher {} client (request [] 19) (initXdmcp conf x 0 0)

/-- The MANAGE creates a display for the client. -/
theorem manage_creates (x : Access) : ∃ s' d,
    step build cipher (.packet client (.manage ⟨1, 0, [], 8⟩) { hostName := some [104] })
      (requested x) = some s' ∧ d ∈ s'.displays ∧ d.displayType.origin = .dFromXDMCP ∧
      d.client = Client.ofAddr client :=
  ⟨_, _, rfl, List.mem_cons_self, rfl, rfl⟩

end Sample

/-- The database is empty, the client sends a REQUEST and a MANAGE, and gets its display. -/
theorem not_granted : ∃ s e s' d,
    Reaches (step Sample.build Sample.cipher)
      (· = initXdmcp Sample.conf Sample.access 0 0) (fun _ _ => True) s ∧
    step Sample.build Sample.cipher e s = some s' ∧ d ∈ s'.displays ∧
    (∀ d0 ∈ s.displays, d0.id ≠ d.id) ∧ d.displayType.origin = .dFromXDMCP ∧
    ¬ s.access.Grants d.client := by
  obtain ⟨s', d, hs, hd, ho, hk⟩ := Sample.manage_creates Sample.access
  refine ⟨Sample.requested Sample.access, _, s', d,
    .next (e := .packet Sample.client (.request (Sample.request [] 19)) {}) ⟨[], .start rfl⟩ trivial rfl,
    hs, hd, fun d0 h0 => (nomatch h0), ho, ?_⟩
  rw [hk]
  rintro (⟨e, he, -⟩ | ⟨e, he, -⟩) <;> cases he

/-- A display for a client with access. -/
theorem granted_everybody : ∃ d : Display, Sample.openAccess.Grants d.client := by
  obtain ⟨s', d, hs, hd, ho, hk⟩ := Sample.manage_creates Sample.openAccess
  have hr : Reaches (step Sample.build Sample.cipher)
      (· = initXdmcp Sample.conf Sample.openAccess 0 0) (AdmissionSafe Sample.build)
      (Sample.requested Sample.openAccess) := by
    refine .next (e := .packet Sample.client (.request (Sample.request [] 19)) {})
      ⟨[], .start rfl⟩ ⟨?_, fun x hx => (nomatch hx)⟩ rfl
    rintro from_ r env he - -
    cases he
    exact .inl ⟨_, rfl, rfl⟩
  exact ⟨d, reachable_granted hr hs hd (fun d0 h0 => (nomatch h0)) ho⟩

end Kdm.Xdmcp
