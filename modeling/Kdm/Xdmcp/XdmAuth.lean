import Kdm.Xdmcp.Effects

/-!
# The precondition of XDM-AUTHORIZATION-1

`xdmGetXdmcpAuth` builds the authorization from what the authentication left in the proto display.
The choice of the authorization falls back to any scheme that the daemon knows, while the
authentication is only checked for a name that begins with `XDM-AUTHENTICATION-1`;
`xdmAuth_sound_iff` says which requests fall between the two.
-/

namespace Kdm.Xdmcp

variable {b : Build} {crypt : Crypt} {env : Env} {from_ : Sockaddr} {r : Request}
  {s s' s1 : Daemon} {p p' : ProtoDisplay}

/-- The session was authenticated with a key found for its display, and the 8 bytes of the
authentication data were written. -/
def Authenticated (p : ProtoDisplay) : Prop :=
  p.key.isSome ∧ ∃ rho, p.authenticationData = some rho ∧ rho.length = 8

/-- The REQUEST gets to the choice of an authorization. -/
structure Request.Answers (env : Env) (from_ : Sockaddr) (r : Request) (s : Daemon) : Prop where
  length : r.expectlen = r.length
  nonempty : r.connectionTypes.length ≠ 0
  addresses : r.connectionAddresses.length = r.connectionTypes.length
  found : (findProtoDisplay s from_ r.displayNumber).isSome ∨
    (selectConnectionTypeIndex r.connectionTypes).isSome ∧ env.malloc .protoDisplay = true ∧
      env.malloc .protoAddress = true ∧ env.malloc .connectionAddress = true

/-- The authorization chosen for the REQUEST is XDM-AUTHORIZATION-1. -/
def Request.ChoosesXdm (b : Build) (r : Request) : Prop :=
  ∃ j, authorizationIndex b r = some j ∧ callsXdmAuth b r.authorizationNames[j]? = true

/-- Whenever the REQUEST calls `xdmGetXdmcpAuth`, the session is authenticated. -/
def XdmAuthSound (b : Build) (crypt : Crypt) (env : Env) (from_ : Sockaddr) (r : Request)
    (s : Daemon) : Prop :=
  ∀ s' l p, step b crypt (.packet from_ (.request r) env) s = some s' → s'.log = l ++ s.log →
    .xdmAuth p ∈ l → Authenticated p

/-! ## What the check of the authentication leaves -/

theorem checkAuthentication_xdm {data : Bytes} (hn : namesXdm b env r = true)
    (h : checkAuthentication b crypt env r p = (true, data, p')) : Authenticated p' := by
  unfold checkAuthentication at h
  rw [if_pos hn] at h
  unfold xdmcheckAuthentication at h
  split at h
  · cases h
  rename_i q hq
  split at h
  · cases h
  rename_i hlen
  dsimp only at h
  split at h
  · cases h
    unfold xdmGetKey at hq
    obtain ⟨l, -, hl⟩ := Option.bind_eq_some_iff.mp hq
    obtain ⟨key, -, rfl⟩ := Option.map_eq_some_iff.mp hl
    exact ⟨rfl, _, rfl, (crypt.unwrap_length _ _).trans (not_not.mp hlen)⟩
  · cases h

theorem checkAuthentication_other (hn : ¬ namesXdm b env r = true) :
    checkAuthentication b crypt env r p = (true, r.authenticationData, p) := by
  unfold checkAuthentication
  rw [if_neg hn]

/-! ## Which requests are answered -/

/-- None of the entries is about a call of `xdmGetXdmcpAuth`. -/
def NoXdmAuth (s s' : Daemon) : Prop := ∃ l, s'.log = l ++ s.log ∧ ∀ p, .xdmAuth p ∉ l

theorem NoXdmAuth.drawn (s : Daemon) : NoXdmAuth s (drawn s) := by
  refine ⟨_, rfl, fun p hp => ?_⟩
  obtain ⟨q, -, hq⟩ := List.mem_map.mp hp
  cases hq

theorem NoXdmAuth.cons {e : Entry} (h : NoXdmAuth s s1) (hl : s'.log = e :: s1.log)
    (he : ∀ p, e ≠ .xdmAuth p) : NoXdmAuth s s' := by
  obtain ⟨l, hs, hno⟩ := h
  refine ⟨e :: l, by rw [hl, hs]; rfl, fun p hp => ?_⟩
  rcases List.mem_cons.mp hp with hp | hp
  · exact he p hp.symm
  · exact hno p hp

theorem NoXdmAuth.refl (s : Daemon) : NoXdmAuth s s := ⟨[], rfl, fun _ h => (nomatch h)⟩

theorem declineRequest_noXdmAuth (h : NoXdmAuth s s1) (reason : Bytes) :
    NoXdmAuth s (declineRequest from_ r reason s1) :=
  h.cons rfl (fun _ he => (nomatch he))

theorem Opened.noXdmAuth (h : Opened s from_ r p s1) : NoXdmAuth s s1 := by
  cases h with
  | found _ => exact .refl s
  | new _ _ _ _ _ _ _ => exact .drawn s

/-- A REQUEST is answered for a proto display exactly when it gets that far. -/
theorem requestRespond_answers (b : Build) (crypt : Crypt) (env : Env) (from_ : Sockaddr)
    (r : Request) (s : Daemon) :
    r.Answers env from_ s ∧ (∃ p s1, Opened s from_ r p s1 ∧
      requestRespond b crypt env from_ r s = answerRequest b crypt env from_ r p s1) ∨
    ¬ r.Answers env from_ s ∧ NoXdmAuth s (requestRespond b crypt env from_ r s) := by
  unfold requestRespond
  split
  · rename_i hlen
    exact .inr ⟨fun h => hlen h.length, .refl s⟩
  rename_i hlen
  split
  · rename_i hconn
    exact .inr ⟨fun h => hconn.elim h.nonempty (fun hne => hne h.addresses),
      declineRequest_noXdmAuth (.refl s) _⟩
  rename_i hconn
  obtain ⟨hne, haddr⟩ := not_or.mp hconn
  have hans (h : (findProtoDisplay s from_ r.displayNumber).isSome ∨
      (selectConnectionTypeIndex r.connectionTypes).isSome ∧ env.malloc .protoDisplay = true ∧
        env.malloc .protoAddress = true ∧ env.malloc .connectionAddress = true) :
      r.Answers env from_ s := ⟨not_not.mp hlen, hne, not_not.mp haddr, h⟩
  split
  · rename_i p hp
    exact .inl ⟨hans (.inl (hp ▸ rfl)), p, s, .found hp, rfl⟩
  rename_i hnone
  simp only [isAccepting]
  split
  · rename_i hsel
    refine .inr ⟨fun h => ?_, declineRequest_noXdmAuth (.refl s) _⟩
    rcases h.found with hf | ⟨hf, -⟩
    · rw [hnone] at hf; cases hf
    · rw [hsel] at hf; cases hf
  · rename_i i hsel
    unfold newProtoDisplay
    dsimp only
    by_cases hm : (env.malloc .protoDisplay && env.malloc .protoAddress &&
        env.malloc .connectionAddress) = true
    · rw [if_pos hm]
      rw [Bool.and_eq_true, Bool.and_eq_true] at hm
      exact .inl ⟨hans (.inr ⟨hsel ▸ rfl, hm.1.1, hm.1.2, hm.2⟩), _, _,
        .new hnone rfl rfl rfl rfl ⟨rfl, rfl⟩ ⟨rfl, rfl⟩, rfl⟩
    · rw [if_neg hm]
      refine .inr ⟨fun h => ?_, declineRequest_noXdmAuth (.drawn s) _⟩
      rcases h.found with hf | ⟨-, h1, h2, h3⟩
      · rw [hnone] at hf; cases hf
      · exact hm (by rw [h1, h2, h3]; rfl)

/-! ## The exact condition -/

/-- A proto display that an earlier REQUEST authenticated is used again. -/
def Reauthorized (s : Daemon) (from_ : Sockaddr) (r : Request) : Prop :=
  ∃ p, findProtoDisplay s from_ r.displayNumber = some p ∧ Authenticated p

theorem Opened.authenticated (h : Opened s from_ r p s1) :
    Authenticated p ↔ Reauthorized s from_ r := by
  cases h with
  | found hp =>
    constructor
    · exact fun ha => ⟨p, hp, ha⟩
    · rintro ⟨q, hq, ha⟩
      cases hp.symm.trans hq
      exact ha
  | new hnone _ _ _ _ _ hkey =>
    constructor
    · rintro ⟨hk, -⟩
      rw [hkey.2] at hk
      cases hk
    · rintro ⟨q, hq, -⟩
      rw [hnone] at hq
      cases hq

/-- The only call is the one for the proto display behind the check of the authentication. -/
theorem answerRequest_xdmAuth (b : Build) (crypt : Crypt) (env : Env) (from_ : Sockaddr)
    (r : Request) (p : ProtoDisplay) (s1 : Daemon) :
    ∃ l, (answerRequest b crypt env from_ r p s1).log = l ++ s1.log ∧
      ∀ q, .xdmAuth q ∈ l ↔ ∃ j data, authorizationIndex b r = some j ∧
        checkAuthentication b crypt env r p = (true, data, q) ∧
        callsXdmAuth b r.authorizationNames[j]? = true := by
  unfold answerRequest
  split
  · rename_i hj
    refine ⟨[.declined p, .sent from_ (.decline noValidAuth r.authenticationName r.authenticationData)],
      rfl, fun q => ?_⟩
    simp [hj]
  rename_i j hj
  split
  · rename_i data p1 hc
    refine ⟨[.declined p1, .sent from_ (.decline noAuthentic r.authenticationName data)], rfl,
      fun q => ?_⟩
    simp [hc]
  rename_i data p1 hc
  dsimp only
  generalize authorizeDisplay b crypt env r.authorizationNames[j]? p1 = x
  unfold Daemon.noteXdmAuth
  split
  · rename_i hcall
    refine ⟨[.accept from_ x.2 (acceptPacket r data x.1 x.2), .xdmAuth p1], rfl, fun q => ?_⟩
    simp only [List.mem_cons, reduceCtorEq, Entry.xdmAuth.injEq, List.not_mem_nil, or_false, false_or]
    constructor
    · rintro rfl
      exact ⟨j, data, hj, hc, hcall⟩
    · rintro ⟨j', data', -, hc', -⟩
      cases hc.symm.trans hc'
      rfl
  · rename_i hcall
    refine ⟨[.accept from_ x.2 (acceptPacket r data x.1 x.2)], rfl, fun q => ?_⟩
    simp only [List.mem_cons, reduceCtorEq, List.not_mem_nil, or_false, false_iff]
    rintro ⟨j', data', hj', -, hcall'⟩
    cases hj.symm.trans hj'
    exact hcall hcall'

/-- **XDM-AUTHORIZATION-1 precondition**: a REQUEST meets it exactly when it is not answered,
or another authorization is chosen, or its authentication name begins with
XDM-AUTHENTICATION-1, or it is about a session that was authenticated before. -/
theorem xdmAuth_sound_iff (b : Build) (crypt : Crypt) (env : Env) (from_ : Sockaddr) (r : Request)
    (s : Daemon) :
    XdmAuthSound b crypt env from_ r s ↔
      ¬ r.Answers env from_ s ∨ ¬ r.ChoosesXdm b ∨ namesXdm b env r = true ∨
        Reauthorized s from_ r := by
  have hstep : XdmAuthSound b crypt env from_ r s ↔ ∀ l p,
      (requestRespond b crypt env from_ r s).log = l ++ s.log → .xdmAuth p ∈ l →
      Authenticated p := by
    constructor
    · exact fun h l p => h _ l p rfl
    · rintro h s' l p hs
      cases hs
      exact h l p
  rw [hstep]
  rcases requestRespond_answers b crypt env from_ r s with
    ⟨hans, p, s1, ho, hr⟩ | ⟨hno, l', hl', hnone⟩
  · rw [hr]
    obtain ⟨l2, hl2, hcalls⟩ := answerRequest_xdmAuth b crypt env from_ r p s1
    obtain ⟨l1, hl1, hnone⟩ := ho.noXdmAuth
    have hlog : (answerRequest b crypt env from_ r p s1).log = (l2 ++ l1) ++ s.log := by
      rw [hl2, hl1, List.append_assoc]
    constructor
    · intro h
      by_contra hc
      simp only [not_or, not_not] at hc
      obtain ⟨-, ⟨j, hj, hcall⟩, hname, hre⟩ := hc
      have hmem : .xdmAuth p ∈ l2 :=
        (hcalls p).mpr ⟨j, _, hj, checkAuthentication_other hname, hcall⟩
      exact hre (ho.authenticated.mp (h _ p hlog (List.mem_append_left _ hmem)))
    · intro hc l q hl hq
      rw [← List.append_cancel_right (hlog.symm.trans hl)] at hq
      rcases List.mem_append.mp hq with hq | hq
      · obtain ⟨j, data, hj, hcheck, hcall⟩ := (hcalls q).mp hq
        by_cases hname : namesXdm b env r = true
        · exact checkAuthentication_xdm hname hcheck
        · -- the proto display is the one that was found
          cases (checkAuthentication_other hname).symm.trans hcheck
          rcases hc with hc | hc | hc | hc
          · exact absurd hans hc
          · exact absurd ⟨j, hj, hcall⟩ hc
          · exact absurd hc hname
          · exact ho.authenticated.mpr hc
      · exact absurd hq (hnone q)
  · refine iff_of_true (fun l p hl hp => ?_) (.inl hno)
    rw [List.append_cancel_right (hl.symm.trans hl')] at hp
    exact absurd hp (hnone p)

/-- A REQUEST with an empty authentication name that offers XDM-AUTHORIZATION-1. -/
theorem not_xdmAuthSound : ¬ ∀ b crypt env from_ r conf access now t,
    b.HASXDMAUTH = true → XdmAuthSound b crypt env from_ r (initXdmcp conf access now t) := by
  intro h
  have hs := h ⟨true, false, false⟩ Sample.cipher {} Sample.client
    (Sample.request [ascii "XDM-AUTHORIZATION-1"] 40) Sample.conf Sample.access 0 0 rfl
  obtain ⟨hk, -⟩ := hs _ [_, _] _ rfl rfl (List.mem_cons_of_mem _ List.mem_cons_self)
  cases hk

end Kdm.Xdmcp
