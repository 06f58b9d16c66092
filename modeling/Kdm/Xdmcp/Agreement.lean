import Kdm.Xdmcp.Sessions

/-!
# What the ACCEPTs of a session say

A REQUEST that is sent again is answered for the same proto display, with the same session ID, but
its authorization is set up anew.  In the runs in which no such REQUEST is about an authorization
all ACCEPTs with a session ID say the same, and the display gets the authorization they offered
(`reachable_authAgree`); otherwise the client and the display may differ (`not_authAgree`).
-/

namespace Kdm.Xdmcp

open Runs

variable {b : Build} {crypt : Crypt} {env : Env} {from_ dest : Sockaddr} {r : Request} {m : Manage}
  {s s' s1 : Daemon} {e : Entry} {p p' q : ProtoDisplay} {d : Display} {a : Accept} {base : Nat}

/-! ## The property -/

/-- The data of XDM-AUTHORIZATION-1: in the display the session key follows the random number of
the authentication, the client gets it encrypted with its key. -/
def ProtoDisplay.Encrypts (crypt : Crypt) (p : ProtoDisplay) (stored sent : Bytes) : Prop :=
  ∃ garbage sessionKey, stored = (p.authenticationData.getD garbage).take 8 ++ sessionKey ∧
    sent = crypt.wrap (p.key.getD garbage) sessionKey

/-- A client that acted on the ACCEPT for `p` can connect to a display with this authorization. -/
def ProtoDisplay.Carries (crypt : Crypt) (p : ProtoDisplay) (a : Accept) : Option Xauth → Prop
  | none => a.authorizationName = [] ∧ a.authorizationData = []
  | some x => a.authorizationName = x.name ∧
      (a.authorizationData = x.data ∨ p.Encrypts crypt x.data a.authorizationData)

structure AuthAgree (crypt : Crypt) (s : Daemon) : Prop where
  accepts : ∀ dest p a dest' p' a', .accept dest p a ∈ s.log → .accept dest' p' a' ∈ s.log →
    a.sessionID = a'.sessionID →
    a.authorizationName = a'.authorizationName ∧ a.authorizationData = a'.authorizationData
  managed : ∀ p d dest q a, .managed p d ∈ s.log → .accept dest q a ∈ s.log →
    a.sessionID = d.sessionID → q.Carries crypt a d.authorizations

/-- A REQUEST that gets to the search for a proto display. -/
def Request.WellFormed (r : Request) : Prop :=
  r.expectlen = r.length ∧ r.connectionTypes.length ≠ 0 ∧
    r.connectionAddresses.length = r.connectionTypes.length

/-- Nothing is authorized a second time: a REQUEST that finds a proto display and is not declined
offers no authorization, and none was set up for the proto display. -/
def AgreeSafe (b : Build) (crypt : Crypt) (s : Daemon) (e : Event) : Prop :=
  ∀ from_ r env p, e = .packet from_ (.request r) env → r.WellFormed →
    findProtoDisplay s from_ r.displayNumber = some p → (authorizationIndex b r).isSome →
    (checkAuthentication b crypt env r p).1 = true →
    r.authorizationNames = [] ∧ p.fileAuthorization = none ∧ p.xdmcpAuthorization = none

/-! ## Authorizations of a proto display -/

/-- The encrypted authorization belongs to the one for the display. -/
def ProtoDisplay.Wrapped (crypt : Crypt) (p : ProtoDisplay) : Prop :=
  ∀ x, p.xdmcpAuthorization = some x → ∃ f, p.fileAuthorization = some f ∧ x.name = f.name ∧
    p.Encrypts crypt f.data x.data

def ProtoDisplay.SameAuth (p q : ProtoDisplay) : Prop :=
  q.fileAuthorization = p.fileAuthorization ∧ q.xdmcpAuthorization = p.xdmcpAuthorization

theorem ProtoDisplay.SameAuth.offer (h : p.SameAuth q) : q.offer = p.offer := by
  unfold ProtoDisplay.offer
  rw [h.1, h.2]

theorem checkAuthentication_sameAuth (b : Build) (crypt : Crypt) (env : Env) (r : Request)
    (p : ProtoDisplay) : p.SameAuth (checkAuthentication b crypt env r p).2.2 := by
  unfold checkAuthentication
  split
  · unfold xdmcheckAuthentication xdmGetKey
    cases (env.keys.bind fun keys => keys.find? fun l => l.1 == r.manufacturerDisplayID) with
    | none => exact ⟨rfl, rfl⟩
    | some l =>
      cases hk : keyBytes l.2 with
      | none =>
        simp only [Option.bind_some, hk, Option.map_none]
        exact ⟨rfl, rfl⟩
      | some key =>
        simp only [Option.bind_some, hk, Option.map_some]
        split
        · exact ⟨rfl, rfl⟩
        · split
          · exact ⟨rfl, rfl⟩
          · exact ⟨rfl, rfl⟩
  · exact ⟨rfl, rfl⟩

theorem ProtoDisplay.Wrapped.of_none (h : p.xdmcpAuthorization = none) : p.Wrapped crypt := by
  intro x hx
  rw [h] at hx
  cases hx

theorem xdmGetXdmcpAuth_wrapped (crypt : Crypt) (env : Env) (name : Bytes)
    (hp : p.xdmcpAuthorization = none) : (xdmGetXdmcpAuth crypt env name p).Wrapped crypt := by
  unfold xdmGetXdmcpAuth
  split
  · exact .of_none hp
  · split
    · exact .of_none hp
    · split
      · intro x hx
        cases hx
        exact ⟨_, rfl, rfl, env.garbage, _, rfl, rfl⟩
      · exact .of_none hp

/-- What is offered with an ACCEPT is what the proto display has. -/
theorem authorizeDisplay_wrapped (b : Build) (crypt : Crypt) (env : Env) (name : Option Bytes)
    (hf : name = none → p.fileAuthorization = none) (hx : name = none → p.xdmcpAuthorization = none) :
    (authorizeDisplay b crypt env name p).1 = (authorizeDisplay b crypt env name p).2.offer ∧
      (authorizeDisplay b crypt env name p).2.Wrapped crypt := by
  cases name with
  | none =>
    refine ⟨?_, .of_none (hx rfl)⟩
    show none = p.offer
    unfold ProtoDisplay.offer
    rw [hx rfl, hf rfl]
  | some n =>
    refine ⟨rfl, ?_⟩
    show (setProtoDisplayAuthorization b crypt env n p).Wrapped crypt
    unfold setProtoDisplayAuthorization
    dsimp only
    split
    · exact .of_none rfl
    · split
      · exact xdmGetXdmcpAuth_wrapped crypt env n rfl
      · exact .of_none rfl

/-! ## The invariant -/

/-- The proto display that an entry sends or stores the authorization of. -/
def Entry.offers : Entry → Option ProtoDisplay
  | .accept _ p _ | .managed p _ => some p
  | _ => none

def Settled (s : Daemon) (p : ProtoDisplay) : Prop :=
  p ∈ s.protoDisplays ∨ ∃ e ∈ s.log, e.offers = some p

theorem Entry.proto_of_offers (h : e.offers = some p) : e.proto = some p := by
  cases e <;> first | exact h | cases h

theorem Settled.known (h : Settled s p) : Known s p := by
  rcases h with h | ⟨e, he, hp⟩
  · exact .inl h
  · exact .inr ⟨e, he, Entry.proto_of_offers hp⟩

/-- The authorization of a session does not change once it was offered. -/
structure Agreed (crypt : Crypt) (s : Daemon) : Prop where
  same : ∀ dest q a, .accept dest q a ∈ s.log → ∀ p, Settled s p → p.id = q.id → q.SameAuth p
  accept : ∀ dest q a, .accept dest q a ∈ s.log → a.sessionID = q.sessionID ∧
    a.authorizationName = (q.offer.map (·.name)).getD [] ∧
    a.authorizationData = (q.offer.map (·.data)).getD []
  managed : ∀ p d, .managed p d ∈ s.log →
    d.authorizations = p.fileAuthorization ∧ d.sessionID = p.sessionID
  wrapped : ∀ p, Settled s p → p.Wrapped crypt

theorem Agreed.initial {conf : Conf} {access : Access} {now : Int} {t : Nat} :
    Agreed crypt (initXdmcp conf access now t) where
  same _ _ _ h := by cases h
  accept _ _ _ h := by cases h
  managed _ _ h := by cases h
  wrapped p h := by
    rcases h with h | ⟨e, h, -⟩
    · cases h
    · cases h

/-- Nothing new was offered. -/
theorem Agreed.mono (h : Agreed crypt s) (hp : ∀ p ∈ s'.protoDisplays, p ∈ s.protoDisplays)
    (hl : ∃ l, s'.log = l ++ s.log ∧ ∀ e ∈ l, e.offers = none) : Agreed crypt s' := by
  obtain ⟨l, hl, hno⟩ := hl
  have hold (e : Entry) (q : ProtoDisplay) (he : e ∈ s'.log) (hq : e.offers = some q) :
      e ∈ s.log := by
    rw [hl] at he
    rcases List.mem_append.mp he with he | he
    · rw [hno e he] at hq
      cases hq
    · exact he
  have hset (q : ProtoDisplay) (hq : Settled s' q) : Settled s q := by
    rcases hq with hq | ⟨e, he, hq⟩
    · exact .inl (hp q hq)
    · exact .inr ⟨e, hold e q he hq, hq⟩
  exact ⟨fun dest q a ha p hs => h.same dest q a (hold _ q ha rfl) p (hset p hs),
    fun dest q a ha => h.accept dest q a (hold _ q ha rfl),
    fun p d hm => h.managed p d (hold _ p hm rfl), fun p hs => h.wrapped p (hset p hs)⟩

theorem Entry.offers_of_proto (h : e.proto = none) : e.offers = none := by
  cases e with
  | sent dest reply => rfl
  | _ => cases h

theorem Agreed.quiet (h : Agreed crypt s) (hq : Quiet s s') : Agreed crypt s' := by
  obtain ⟨l, hl, hno⟩ := hq.log
  exact h.mono (fun p hp => hq.protoDisplays ▸ hp) ⟨l, hl, fun e he => Entry.offers_of_proto (hno e he)⟩

theorem Agreed.drawn (h : Agreed crypt s) : Agreed crypt (drawn s) := by
  refine h.mono (fun p hp => (List.mem_filter.mp hp).1) ⟨_, rfl, fun e he => ?_⟩
  obtain ⟨p, -, rfl⟩ := List.mem_map.mp he
  rfl

/-- A proto display that is opened has the authorization that was offered for it, if it is not
new, and none otherwise. -/
theorem Agreed.opened (h : Agreed crypt s) (hn : Numbered base s) (ho : Opened s from_ r p s1) :
    Agreed crypt s1 ∧ (findProtoDisplay s from_ r.displayNumber = some p ∨
      p.fileAuthorization = none ∧ p.xdmcpAuthorization = none ∧
        ∀ dest q a, .accept dest q a ∈ s1.log → p.id ≠ q.id) := by
  cases ho with
  | found hp => exact ⟨h, .inl hp⟩
  | new hnone hid haddr hnum hsid hauth hkey =>
    have hd := h.drawn
    have hfresh (q : ProtoDisplay) (hq : Settled (Kdm.Xdmcp.drawn s) q) : p.id ≠ q.id := by
      have hlt := hn.fresh q hq.known.drawn
      omega
    refine ⟨⟨?_, hd.accept, hd.managed, ?_⟩, .inr ⟨hauth.1, hauth.2, fun dest q a ha =>
      hfresh q (.inr ⟨_, ha, rfl⟩)⟩⟩
    · intro dest q a ha p0 h0 hid0
      rcases h0 with h0 | h0
      · rcases List.mem_cons.mp h0 with rfl | h0
        · exact absurd hid0 (hfresh q (.inr ⟨_, ha, rfl⟩))
        · exact hd.same dest q a ha p0 (.inl h0) hid0
      · exact hd.same dest q a ha p0 (.inr h0) hid0
    · intro p0 h0
      rcases h0 with h0 | h0
      · rcases List.mem_cons.mp h0 with rfl | h0
        · exact .of_none hauth.2
        · exact hd.wrapped p0 (.inl h0)
      · exact hd.wrapped p0 (.inr h0)

/-- An ACCEPT offers what the proto display has, and no earlier one offered anything else. -/
theorem Agreed.accepted (from_ : Sockaddr) (h : Agreed crypt s) (hid : p'.id = p.id)
    (hlive : ∀ e ∈ s.log, e.ends ≠ some p.id)
    (hsame : ∀ dest q a, .accept dest q a ∈ s.log → p.id = q.id → q.SameAuth p')
    (hw : p'.Wrapped crypt) (hp : s'.protoDisplays = (s.write p').protoDisplays)
    (hl : ∃ l, s'.log = .accept from_ p' a :: l ++ s.log ∧ ∀ e ∈ l, e.offers = none)
    (ha : a.sessionID = p'.sessionID ∧ a.authorizationName = (p'.offer.map (·.name)).getD [] ∧
      a.authorizationData = (p'.offer.map (·.data)).getD []) : Agreed crypt s' := by
  obtain ⟨l, hl, hno⟩ := hl
  have hold (e : Entry) (q : ProtoDisplay) (he : e ∈ s'.log) (hq : e.offers = some q) :
      e = .accept from_ p' a ∨ e ∈ s.log := by
    rw [hl] at he
    rcases List.mem_append.mp he with he | he
    · rcases List.mem_cons.mp he with he | he
      · exact .inl he
      · rw [hno e he] at hq
        cases hq
    · exact .inr he
  -- what is settled is `p'` or was settled before
  have hset (q : ProtoDisplay) (hq : Settled s' q) :
      q = p' ∨ Settled s q ∧ (q.id = p.id → p'.SameAuth q) := by
    rcases hq with hq | ⟨e, he, hq⟩
    · rw [hp] at hq
      obtain ⟨q0, h0, rfl⟩ := List.mem_map.mp hq
      split
      · exact .inl rfl
      · rename_i hne
        exact .inr ⟨.inl h0, fun hi => absurd (hi.trans hid.symm) hne⟩
    · rcases hold e q he hq with rfl | he
      · exact .inl (Option.some.inj hq).symm
      · refine .inr ⟨.inr ⟨e, he, hq⟩, fun hi => ?_⟩
        cases e with
        | accept dest q0 a0 =>
          cases hq
          exact ⟨(hsame _ _ _ he hi.symm).1.symm, (hsame _ _ _ he hi.symm).2.symm⟩
        | managed q0 d =>
          cases hq
          exact absurd (congrArg some hi) (hlive _ he)
        | _ => cases hq
  refine ⟨fun dest q a' ha' q' hq' hi => ?_, fun dest q a' ha' => ?_, fun q d hm => ?_,
    fun q hq => ?_⟩
  · rcases hold _ q ha' rfl with heq | ha'
    · cases heq
      rcases hset q' hq' with rfl | ⟨-, hs⟩
      · exact ⟨rfl, rfl⟩
      · exact hs (hi.trans hid)
    · rcases hset q' hq' with rfl | ⟨hs, -⟩
      · exact hsame dest q a' ha' (hid.symm.trans hi)
      · exact h.same dest q a' ha' q' hs hi
  · rcases hold _ q ha' rfl with heq | ha'
    · cases heq
      exact ha
    · exact h.accept dest q a' ha'
  · rcases hold _ q hm rfl with heq | hm
    · cases heq
    · exact h.managed q d hm
  · rcases hset q hq with rfl | ⟨hs, -⟩
    · exact hw
    · exact h.wrapped q hs

theorem Agreed.answered (h : Agreed crypt s1) (hlive : ∀ e ∈ s1.log, e.ends ≠ some p.id)
    (hkeep : (authorizationIndex b r).isSome → (checkAuthentication b crypt env r p).1 = true →
      r.authorizationNames = [] ∧ Settled s1 p ∧
          p.fileAuthorization = none ∧ p.xdmcpAuthorization = none ∨
        p.fileAuthorization = none ∧ p.xdmcpAuthorization = none ∧
          ∀ dest q a, .accept dest q a ∈ s1.log → p.id ≠ q.id)
    (ha : Answered b crypt env from_ r p s1 s') : Agreed crypt s' := by
  cases ha with
  | @declined reason data p1 hs =>
    refine h.mono (fun q hq => (List.mem_filter.mp hq).1)
      ⟨[.declined p1, .sent from_ (.decline reason r.authenticationName data)], rfl, fun e he => ?_⟩
    rcases List.mem_pair.mp he with rfl | rfl <;> rfl
  | @accepted j data p1 hj hc =>
    have hcheck := checkAuthentication_sameAuth b crypt env r p
    have hsame := checkAuthentication_same b crypt env r p
    have hk := hkeep (hj ▸ rfl) (by rw [hc])
    rw [hc] at hcheck hsame
    have hnone : p1.fileAuthorization = none ∧ p1.xdmcpAuthorization = none := by
      rcases hk with ⟨-, -, hf, hx⟩ | ⟨hf, hx, -⟩ <;> exact ⟨hcheck.1.trans hf, hcheck.2.trans hx⟩
    obtain ⟨hoffer, hw⟩ := authorizeDisplay_wrapped b crypt env r.authorizationNames[j]?
      (fun _ => hnone.1) (fun _ => hnone.2)
    refine h.accepted (p := p) from_
      (a := acceptPacket r data (authorizeDisplay b crypt env r.authorizationNames[j]? p1).1
        (authorizeDisplay b crypt env r.authorizationNames[j]? p1).2)
      (hsame.trans (authorizeDisplay_same b crypt env _ p1)).id hlive ?_ hw ?_ ?_ ?_
    · intro dest q a hq hi
      rcases hk with ⟨hnames, hset, -⟩ | ⟨-, -, hne⟩
      · -- the REQUEST offers no authorization, so the proto display keeps what it has
        rw [hnames]
        exact ⟨hcheck.1.trans (h.same dest q a hq p hset hi).1,
          hcheck.2.trans (h.same dest q a hq p hset hi).2⟩
      · exact absurd hi (hne dest q a hq)
    · unfold sendAccept Daemon.noteXdmAuth
      split <;> rfl
    · unfold sendAccept Daemon.noteXdmAuth
      split
      · exact ⟨[.xdmAuth p1], rfl, fun e he => by cases List.mem_singleton.mp he; rfl⟩
      · exact ⟨[], rfl, by simp⟩
    · rw [← hoffer]
      exact ⟨rfl, rfl, rfl⟩

theorem Agreed.managed_step (h : Agreed crypt s) (hp : p ∈ s.protoDisplays) (hd : d.For from_ p)
    (hs : s'.protoDisplays = s.protoDisplays.filter (·.id != p.id))
    (hl : s'.log = .managed p d :: s.log) : Agreed crypt s' := by
  have hold (e : Entry) (he : e ∈ s'.log) : e = .managed p d ∨ e ∈ s.log := by
    rw [hl] at he
    exact List.mem_cons.mp he
  have hset (q : ProtoDisplay) (hq : Settled s' q) : Settled s q := by
    rcases hq with hq | ⟨e, he, hq⟩
    · exact .inl (List.mem_filter.mp (hs ▸ hq)).1
    · rcases hold e he with rfl | he
      · cases hq
        exact .inl hp
      · exact .inr ⟨e, he, hq⟩
  refine ⟨fun dest q a ha q' hq' => ?_, fun dest q a ha => ?_, fun q d' hm => ?_,
    fun q hq => h.wrapped q (hset q hq)⟩
  · rcases hold _ ha with heq | ha
    · cases heq
    · exact h.same dest q a ha q' (hset q' hq')
  · rcases hold _ ha with heq | ha
    · cases heq
    · exact h.accept dest q a ha
  · rcases hold _ hm with heq | hm
    · cases heq
      exact ⟨hd.authorizations, hd.sessionID⟩
    · exact h.managed q d' hm

theorem requestRespond_illFormed (h : ¬ r.WellFormed) :
    Replied s (requestRespond b crypt env from_ r s) := by
  unfold requestRespond
  split
  · exact .refl s
  · rename_i hlen
    split
    · exact (Replied.refl s).send _ _
    · rename_i hconn
      rw [not_or, not_not] at hconn
      exact absurd ⟨not_not.mp hlen, hconn.1, hconn.2⟩ h

theorem Agreed.step {e : Event} (h : Agreed crypt s) (ht : Tables none s) (hn : Numbered base s)
    (hc : AgreeSafe b crypt s e) (hs : step b crypt e s = some s') : Agreed crypt s' := by
  cases step_effect hs with
  | quiet hq _ => exact h.quiet hq
  | starved reason => exact h.drawn.quiet (.send _ _ _)
  | @answered from_ r env p s1 _ ho ha =>
    by_cases hr : r.WellFormed
    · obtain ⟨ht1, hp, -⟩ := ht.opened ho
      obtain ⟨h1, hopen⟩ := h.opened hn ho
      refine h1.answered (ht1.live p hp) (fun hj hcheck => ?_) ha
      rcases hopen with hfound | hnew
      · obtain ⟨hnames, hf, hx⟩ := hc from_ r env p rfl hr hfound hj hcheck
        exact .inl ⟨hnames, .inl hp, hf, hx⟩
      · exact .inr hnew
    · cases hs
      exact h.quiet (requestRespond_illFormed hr).quiet
  | @managed from_ m env p d s1 hp hsid hq ha hid hd =>
    refine (h.quiet hq).managed_step ?_ hd rfl rfl
    rw [hq.protoDisplays]
    exact findProtoDisplay_mem hp

/-- **ACCEPT/MANAGE authorization agreement.** -/
theorem reachable_authAgree {conf : Conf} {access : Access} {now : Int} {t : Nat}
    (h : Reaches (step b crypt) (· = initXdmcp conf access now t) (AgreeSafe b crypt) s)
    (hb : s.globalSessionID < (initXdmcp conf access now t).globalSessionID + 2 ^ 32) :
    AuthAgree crypt s := by
  have hnum := reachable_numbered h
  have hag : Agreed crypt s := by
    have hall := h.invariant (I := fun s => Agreed crypt s ∧ Tables none s ∧
        Numbered (t % 0x8000 * 16000) s)
      (fun s hs => by rw [show s = _ from hs]; exact ⟨.initial, .initial, .initial⟩)
      fun _ _ _ hi hc hs => ⟨hi.1.step hi.2.1 hi.2.2 hc hs, hi.2.1.step hs, hi.2.2.step hs⟩
    exact hall.1
  have hid (p q : ProtoDisplay) (hp : Settled s p) (hq : Settled s q)
      (hi : p.sessionID = q.sessionID) : p.id = q.id :=
    (hnum.distinct hb p q hp.known hq.known).mpr hi
  constructor
  · intro dest p a dest' p' a' ha ha' hi
    obtain ⟨h1, h2, h3⟩ := hag.accept dest p a ha
    obtain ⟨h1', h2', h3'⟩ := hag.accept dest' p' a' ha'
    have hs := (hag.same dest p a ha p' (.inr ⟨_, ha', rfl⟩) (hid p' p (.inr ⟨_, ha', rfl⟩)
      (.inr ⟨_, ha, rfl⟩) (h1'.symm.trans (hi.symm.trans h1)))).offer
    rw [h2, h3, h2', h3', hs]
    exact ⟨rfl, rfl⟩
  · intro p d dest q a hm ha hi
    obtain ⟨h1, h2, h3⟩ := hag.accept dest q a ha
    obtain ⟨hauth, hsid⟩ := hag.managed p d hm
    obtain ⟨hf, hx⟩ := hag.same dest q a ha p (.inr ⟨_, hm, rfl⟩) (hid p q (.inr ⟨_, hm, rfl⟩)
      (.inr ⟨_, ha, rfl⟩) (hsid.symm.trans (hi.symm.trans h1)))
    rw [hauth, hf]
    unfold ProtoDisplay.offer at h2 h3
    cases hxd : q.xdmcpAuthorization with
    | some x =>
      obtain ⟨f, hfile, hname, henc⟩ := hag.wrapped q (.inr ⟨_, ha, rfl⟩) x hxd
      rw [hxd] at h2 h3
      rw [hfile]
      exact ⟨h2.trans hname, .inr (by rw [h3]; exact henc)⟩
    | none =>
      rw [hxd] at h2 h3
      cases hfile : q.fileAuthorization with
      | some f =>
        rw [hfile] at h2 h3
        exact ⟨h2, .inl h3⟩
      | none =>
        rw [hfile] at h2 h3
        exact ⟨h2, h3⟩

namespace Sample

/-- A REQUEST that offers MIT-MAGIC-COOKIE-1, answered with a cookie of bytes `c`. -/
def cookie (c : UInt8) : Event :=
  .packet client (.request (request [ascii "MIT-MAGIC-COOKIE-1"] 39))
    { random := fun n => some (List.replicate n c) }

end Sample

/-- The REQUEST is sent twice: the second ACCEPT has the same session ID and another cookie. -/
theorem not_authAgree : ¬ ∀ b crypt conf access now t s,
    Reaches (step b crypt) (· = initXdmcp conf access now t) (fun _ _ => True) s →
    s.globalSessionID < (initXdmcp conf access now t).globalSessionID + 2 ^ 32 →
    AuthAgree crypt s := by
  intro h
  have hr : Reaches (step Sample.build Sample.cipher)
      (· = initXdmcp Sample.conf Sample.access 0 0) (fun _ _ => True) _ :=
    .next (e := Sample.cookie 2) (.next (e := Sample.cookie 1) ⟨[], .start rfl⟩ trivial rfl) trivial rfl
  have ha := h _ _ _ _ _ _ _ hr (by decide)
  obtain ⟨-, hdata⟩ := ha.accepts _ _ _ _ _ _ List.mem_cons_self
    (List.mem_cons_of_mem _ List.mem_cons_self) rfl
  exact absurd hdata (by decide)

/-- A session was accepted with a cookie. -/
theorem authAgree_cookie : ∃ s dest p a, .accept dest p a ∈ s.log ∧ a.authorizationData ≠ [] ∧
    AuthAgree Sample.cipher s := by
  have hr : Reaches (step Sample.build Sample.cipher)
      (· = initXdmcp Sample.conf Sample.access 0 0) (AgreeSafe Sample.build Sample.cipher) _ :=
    .next (e := Sample.cookie 1) ⟨[], .start rfl⟩
      (fun _ _ _ _ he _ hf => by cases he; cases hf) rfl
  exact ⟨_, _, _, _, List.mem_cons_self, by decide, reachable_authAgree hr (by decide)⟩

end Kdm.Xdmcp
