import Kdm.Xdmcp.Daemon

/-!
# What a step of the XDMCP service does

`step_effect` lists everything that a step can do to the tables of proto displays and displays
and to the log.  A step is quiet, or it is a REQUEST or a MANAGE that changes the tables; the
results about whole runs are derived from this list.
-/

namespace Kdm.Xdmcp

variable {b : Build} {crypt : Crypt} {env : Env} {from_ : Sockaddr} {r : Request} {m : Manage}
  {s s' s'' s1 : Daemon} {e : Event} {p p' : ProtoDisplay} {d : Display} {x : Access}

/-! ## Proto displays keep what they are for -/

/-- The handlers write the keys and the authorizations of a proto display only. -/
structure ProtoDisplay.Same (p q : ProtoDisplay) : Prop where
  id : q.id = p.id
  address : q.address = p.address
  displayNumber : q.displayNumber = p.displayNumber
  sessionID : q.sessionID = p.sessionID

theorem ProtoDisplay.Same.refl (p : ProtoDisplay) : p.Same p := ⟨rfl, rfl, rfl, rfl⟩

theorem ProtoDisplay.Same.trans {p q o : ProtoDisplay} (h : p.Same q) (h' : q.Same o) :
    p.Same o :=
  ⟨h'.id.trans h.id, h'.address.trans h.address, h'.displayNumber.trans h.displayNumber,
    h'.sessionID.trans h.sessionID⟩

theorem xdmGetXdmcpAuth_same (crypt : Crypt) (env : Env) (name : Bytes) (p : ProtoDisplay) :
    p.Same (xdmGetXdmcpAuth crypt env name p) := by
  unfold xdmGetXdmcpAuth
  split
  · exact .refl p
  · split
    · exact .refl p
    · dsimp only
      split
      · exact ⟨rfl, rfl, rfl, rfl⟩
      · exact .refl p

theorem setProtoDisplayAuthorization_same (b : Build) (crypt : Crypt) (env : Env) (name : Bytes) (p : ProtoDisplay) :
    p.Same (setProtoDisplayAuthorization b crypt env name p) := by
  unfold setProtoDisplayAuthorization
  dsimp only
  split
  · exact ⟨rfl, rfl, rfl, rfl⟩
  · split
    · have hg := xdmGetXdmcpAuth_same crypt env name
        { p with xdmcpAuthorization := none, fileAuthorization := none }
      exact ⟨hg.id, hg.address, hg.displayNumber, hg.sessionID⟩
    · exact ⟨rfl, rfl, rfl, rfl⟩

theorem authorizeDisplay_same (b : Build) (crypt : Crypt) (env : Env) (name : Option Bytes)
    (p : ProtoDisplay) :
    p.Same (authorizeDisplay b crypt env name p).2 := by
  cases name with
  | none => exact .refl p
  | some n => exact setProtoDisplayAuthorization_same b crypt env n p

theorem xdmGetKey_same {displayID : Bytes} (h : xdmGetKey env displayID p = some p') :
    p.Same p' := by
  unfold xdmGetKey at h
  obtain ⟨l, -, hl⟩ := Option.bind_eq_some_iff.mp h
  obtain ⟨key, -, rfl⟩ := Option.map_eq_some_iff.mp hl
  exact ⟨rfl, rfl, rfl, rfl⟩

theorem checkAuthentication_same (b : Build) (crypt : Crypt) (env : Env) (r : Request)
    (p : ProtoDisplay) :
    p.Same (checkAuthentication b crypt env r p).2.2 := by
  unfold checkAuthentication
  split
  · unfold xdmcheckAuthentication
    split
    · exact .refl p
    · rename_i q hq
      have hpq := xdmGetKey_same hq
      split
      · exact hpq
      · dsimp only
        split
        · exact ⟨hpq.id, hpq.address, hpq.displayNumber, hpq.sessionID⟩
        · exact hpq
  · exact .refl p

/-! ## Quiet steps -/

/-- The proto display an entry of the log is about. -/
def Entry.proto : Entry → Option ProtoDisplay
  | .accept _ p _ | .xdmAuth p | .timedOut p | .declined p | .managed p _ => some p
  | .sent _ _ => none

/-- Packets are sent, displays change their status, leave the list or come from elsewhere, and
host choices are made; the proto displays stay as they are. -/
structure Quiet (s s' : Daemon) : Prop where
  protoDisplays : s'.protoDisplays = s.protoDisplays
  globalSessionID : s'.globalSessionID = s.globalSessionID
  nextId : s.nextId ≤ s'.nextId
  displays : ∀ d ∈ s'.displays, (∃ d0 ∈ s.displays, d = { d0 with status := d.status }) ∨
    d.id = s.nextId ∧ d.id < s'.nextId ∧ d.sessionID = 0 ∧ d.displayType.origin ≠ .dFromXDMCP
  log : ∃ l, s'.log = l ++ s.log ∧ ∀ e ∈ l, e.proto = none

theorem Quiet.of_eq (hp : s'.protoDisplays = s.protoDisplays)
    (hg : s'.globalSessionID = s.globalSessionID) (hn : s'.nextId = s.nextId)
    (hd : ∀ d ∈ s'.displays, ∃ d0 ∈ s.displays, d = { d0 with status := d.status })
    (hl : ∃ l, s'.log = l ++ s.log ∧ ∀ e ∈ l, e.proto = none) : Quiet s s' :=
  ⟨hp, hg, hn ▸ le_rfl, fun d h => .inl (hd d h), hl⟩

theorem Quiet.frame (hp : s'.protoDisplays = s.protoDisplays)
    (hg : s'.globalSessionID = s.globalSessionID) (hn : s'.nextId = s.nextId)
    (hd : s'.displays = s.displays) (hl : s'.log = s.log) : Quiet s s' :=
  .of_eq hp hg hn (fun d h => ⟨d, hd ▸ h, rfl⟩) ⟨[], hl, by simp⟩

theorem Quiet.refl (s : Daemon) : Quiet s s := .frame rfl rfl rfl rfl rfl

theorem Quiet.send (s : Daemon) (dest : Sockaddr) (reply : Reply) : Quiet s (s.send dest reply) :=
  .of_eq rfl rfl rfl (fun d h => ⟨d, h, rfl⟩) ⟨[.sent dest reply], rfl, by simp [Entry.proto]⟩

/-- A quiet step may be followed by one that leaves the displays alone. -/
theorem Quiet.then (h : Quiet s s') (hp : s''.protoDisplays = s'.protoDisplays)
    (hg : s''.globalSessionID = s'.globalSessionID) (hn : s''.nextId = s'.nextId)
    (hd : s''.displays = s'.displays) (hl : ∃ l, s''.log = l ++ s'.log ∧ ∀ e ∈ l, e.proto = none) :
    Quiet s s'' where
  protoDisplays := hp.trans h.protoDisplays
  globalSessionID := hg.trans h.globalSessionID
  nextId := hn ▸ h.nextId
  displays d hdm := by
    rw [hn]
    exact h.displays d (hd ▸ hdm)
  log := by
    obtain ⟨l, hl1, hno⟩ := h.log
    obtain ⟨l', hl2, hno'⟩ := hl
    refine ⟨l' ++ l, by rw [hl2, hl1, List.append_assoc], fun e he => ?_⟩
    rcases List.mem_append.mp he with he | he
    · exact hno' e he
    · exact hno e he

theorem Quiet.then_send (h : Quiet s s') (dest : Sockaddr) (reply : Reply) :
    Quiet s (s'.send dest reply) :=
  h.then rfl rfl rfl rfl ⟨[.sent dest reply], rfl, by simp [Entry.proto]⟩

theorem Quiet.then_frame (h : Quiet s s') (hp : s''.protoDisplays = s'.protoDisplays)
    (hg : s''.globalSessionID = s'.globalSessionID) (hn : s''.nextId = s'.nextId)
    (hd : s''.displays = s'.displays) (hl : s''.log = s'.log) : Quiet s s'' :=
  h.then hp hg hn hd ⟨[], hl, by simp⟩

theorem stopDisplay_quiet (env : Env) (d : Display) (s : Daemon) : Quiet s (stopDisplay env d s) := by
  refine .of_eq rfl rfl rfl (fun e he => ?_) ⟨[], rfl, by simp⟩
  unfold stopDisplay at he
  dsimp only at he
  split at he
  · obtain ⟨e0, h0, rfl⟩ := List.mem_map.mp he
    refine ⟨e0, h0, ?_⟩
    split
    · rfl
    · rfl
  · exact ⟨e, (List.mem_filter.mp he).1, rfl⟩

/-! ## Queries -/

/-- The events that put new tables, another name service or another local address in place. -/
inductive Loads (s : Daemon) : Event → Access → Prop
  | rescan (conf : Conf) (acc : AccArr) : Loads s (.rescan conf acc) { s.access with acc }
  | network (names : Resolver) (localAddress : Bytes) :
      Loads s (.network names localAddress) { s.access with names, localAddress }
  /-- `isWilling` rescans the database now and then -/
  | query {from_ : Sockaddr} {p : Packet} {env : Env} (acc : AccArr) (henv : env.xaccess = some acc)
      (hauto : s.conf.autoRescan = true) (hdue : s.lastscan + 15 < s.now) :
      Loads s (.packet from_ p env) { s.access with acc }

theorem Loads.frame (h : Loads s1 e x) (ha : s1.access = s.access) (hc : s1.conf = s.conf)
    (hl : s1.lastscan = s.lastscan) (hn : s1.now = s.now) : Loads s e x := by
  cases h with
  | rescan conf acc => rw [ha]; exact .rescan conf acc
  | network names localAddress => rw [ha]; exact .network names localAddress
  | query acc henv hauto hdue =>
    rw [ha]
    exact .query acc henv (hc ▸ hauto) (hl ▸ hn ▸ hdue)

/-- Only replies were sent and host choices made. -/
def Replied (s s' : Daemon) : Prop :=
  ∃ c l, s' = { s with choices := c, log := l ++ s.log } ∧ ∀ e ∈ l, e.proto = none

theorem Replied.refl (s : Daemon) : Replied s s := ⟨s.choices, [], rfl, by simp⟩

theorem Replied.send (h : Replied s s') (dest : Sockaddr) (reply : Reply) :
    Replied s (s'.send dest reply) := by
  obtain ⟨c, l, rfl, hl⟩ := h
  refine ⟨c, .sent dest reply :: l, rfl, fun e he => ?_⟩
  rcases List.mem_cons.mp he with rfl | he
  · rfl
  · exact hl e he

theorem Replied.quiet (h : Replied s s') : Quiet s s' := by
  obtain ⟨c, l, rfl, hl⟩ := h
  exact .of_eq rfl rfl rfl (fun d h => ⟨d, h, rfl⟩) ⟨l, rfl, hl⟩

/-- The step leaves the tables of the access control alone or loads them. -/
def KeepsAccess (s : Daemon) (e : Event) (s' : Daemon) : Prop :=
  s'.access = s.access ∨ Loads s e s'.access

theorem allQueryRespond_quiet {names : List Bytes} {type : Access.QueryType} {client : Sockaddr}
    (p : Packet) (h0 : Replied s s1)
    (h : allQueryRespond b env client names type s1 = some s') :
    Quiet s s' ∧ KeepsAccess s (.packet from_ p env) s' := by
  unfold allQueryRespond isWilling at h
  dsimp only at h
  obtain ⟨⟨ret, status, s2⟩, hw, hs⟩ := Option.map_eq_some_iff.mp h
  obtain ⟨ret', -, hs2⟩ := Option.map_eq_some_iff.mp hw
  -- the state behind `isWilling`
  have h2 : Quiet s s2 ∧ KeepsAccess s (.packet from_ p env) s2 := by
    obtain ⟨c, l, rfl, hl⟩ := h0
    cases hs2
    split <;> split <;> rename_i hdue
    all_goals first
      | (rw [Bool.and_eq_true, decide_eq_true_eq] at hdue
         refine ⟨.of_eq rfl rfl rfl (fun d h => ⟨d, h, rfl⟩) ⟨l, rfl, hl⟩, ?_⟩
         cases hx : env.xaccess with
         | none => exact .inl rfl
         | some acc => exact .inr (.query acc hx hdue.1 hdue.2))
      | exact ⟨.of_eq rfl rfl rfl (fun d h => ⟨d, h, rfl⟩) ⟨l, rfl, hl⟩, .inl rfl⟩
  subst hs
  dsimp only
  split
  · exact ⟨h2.1.then_send _ _, h2.2⟩
  · split
    · exact ⟨h2.1.then_send _ _, h2.2⟩
    · exact h2

theorem sendForward_replied (k : Client) (names : List Bytes) (hosts : List (UInt16 × Bytes)) :
    ∀ {s1 : Daemon}, Replied s s1 →
      Replied s (hosts.foldl (fun s dest => sendForward k names dest s) s1) := by
  induction hosts with
  | nil => exact fun h => h
  | cons dest hosts ih =>
    intro s1 h
    refine ih ?_
    show Replied s (sendForward k names dest s1)
    unfold sendForward
    split
    · exact h.send _ _
    · exact h

theorem query_quiet {type : Access.QueryType} {names : List Bytes} {length : Nat}
    (h : processRequestSocket b crypt env from_ (.query type names length) s = some s') :
    Quiet s s' ∧ KeepsAccess s (.packet from_ (.query type names length) env) s' := by
  have hdirect (h : directQueryRespond b env from_ names length type s = some s') :
      Quiet s s' ∧ KeepsAccess s (.packet from_ (.query type names length) env) s' := by
    unfold directQueryRespond at h
    split at h
    · cases h; exact ⟨.refl s, .inl rfl⟩
    · exact allQueryRespond_quiet _ (.refl s) h
  cases type with
  | indirect =>
    have h : indirectRespond b env from_ names length s = some s' := h
    unfold indirectRespond at h
    split at h
    · cases h; exact ⟨.refl s, .inl rfl⟩
    · obtain ⟨⟨hosts, localHostAsWell⟩, -, h⟩ := Option.bind_eq_some_iff.mp h
      have hr := sendForward_replied (Client.ofAddr from_) names hosts (.refl s)
      dsimp only at h
      split at h
      · exact allQueryRespond_quiet _ hr h
      · cases h
        obtain ⟨c, l, hs, hl⟩ := hr
        refine ⟨Replied.quiet ⟨c, l, hs, hl⟩, .inl ?_⟩
        rw [hs]
  | _ => exact hdirect h

theorem forwardRespond_quiet {addr port : Bytes} {names : List Bytes} {length : Nat}
    (h : forwardRespond b env from_ addr port names length s = some s') :
    Quiet s s' ∧ KeepsAccess s (.packet from_ (.forward addr port names length) env) s' := by
  unfold forwardRespond at h
  split at h
  · cases h; exact ⟨.refl s, .inl rfl⟩
  · split at h
    · cases h; exact ⟨.refl s, .inl rfl⟩
    · exact allQueryRespond_quiet _ (.refl s) h

/-! ## Requests -/

/-- The proto display that a REQUEST is answered for, and the state it is answered in: one that
is there, or a new one with the next session ID. -/
inductive Opened (s : Daemon) (from_ : Sockaddr) (r : Request) : ProtoDisplay → Daemon → Prop
  | found {p : ProtoDisplay} (h : findProtoDisplay s from_ r.displayNumber = some p) :
      Opened s from_ r p s
  | new {p : ProtoDisplay} (h : findProtoDisplay s from_ r.displayNumber = none)
      (hid : p.id = s.nextId) (haddr : p.address = from_) (hnum : p.displayNumber = r.displayNumber)
      (hsid : p.sessionID = UInt32.ofNat (s.globalSessionID + 1))
      (hauth : p.fileAuthorization = none ∧ p.xdmcpAuthorization = none)
      (hkey : p.authenticationData = none ∧ p.key = none) :
      Opened s from_ r p
        { timeoutProtoDisplays { s with globalSessionID := s.globalSessionID + 1 } with
          nextId := s.nextId + 1
          protoDisplays := p :: s.protoDisplays.filter fun q => !q.expired s.now }

/-- The state in which no proto display could be allocated. -/
def drawn (s : Daemon) : Daemon :=
  timeoutProtoDisplays { s with globalSessionID := s.globalSessionID + 1 }

theorem requestRespond_cases (b : Build) (crypt : Crypt) (env : Env) (from_ : Sockaddr)
    (r : Request) (s : Daemon) :
    Replied s (requestRespond b crypt env from_ r s) ∨
    (∃ reason, requestRespond b crypt env from_ r s = declineRequest from_ r reason (drawn s)) ∨
    ∃ p s1, Opened s from_ r p s1 ∧
      requestRespond b crypt env from_ r s = answerRequest b crypt env from_ r p s1 := by
  unfold requestRespond
  split
  · exact .inl (.refl s)
  split
  · exact .inl ((Replied.refl s).send _ _)
  split
  · rename_i p hp
    exact .inr (.inr ⟨p, s, .found hp, rfl⟩)
  · rename_i hnone
    simp only [isAccepting]
    split
    · exact .inl ((Replied.refl s).send _ _)
    · rename_i i _
      unfold newProtoDisplay
      dsimp only
      by_cases hm : (env.malloc .protoDisplay && env.malloc .protoAddress &&
          env.malloc .connectionAddress) = true
      · rw [if_pos hm]
        exact .inr (.inr ⟨_, _, .new hnone rfl rfl rfl rfl ⟨rfl, rfl⟩ ⟨rfl, rfl⟩, rfl⟩)
      · rw [if_neg hm]
        exact .inr (.inl ⟨_, rfl⟩)

/-- How an open REQUEST is answered. -/
inductive Answered (b : Build) (crypt : Crypt) (env : Env) (from_ : Sockaddr) (r : Request)
    (p : ProtoDisplay) (s1 : Daemon) : Daemon → Prop
  | declined {reason data : Bytes} {p' : ProtoDisplay} (hp : p.Same p') :
      Answered b crypt env from_ r p s1 (declineDisplay from_ r reason data p' s1)
  | accepted {j : Nat} {data : Bytes} {p1 : ProtoDisplay} (hj : authorizationIndex b r = some j)
      (hc : checkAuthentication b crypt env r p = (true, data, p1)) :
      Answered b crypt env from_ r p s1
        (sendAccept from_ r data (authorizeDisplay b crypt env r.authorizationNames[j]? p1).1
          (authorizeDisplay b crypt env r.authorizationNames[j]? p1).2
          ((s1.noteXdmAuth b r.authorizationNames[j]? p1).write
            (authorizeDisplay b crypt env r.authorizationNames[j]? p1).2))

theorem answerRequest_cases :
    Answered b crypt env from_ r p s1 (answerRequest b crypt env from_ r p s1) := by
  unfold answerRequest
  split
  · exact .declined (.refl p)
  · rename_i j hj
    split
    · rename_i data p1 hc
      have hs := checkAuthentication_same b crypt env r p
      rw [hc] at hs
      exact .declined hs
    · rename_i data p1 hc
      exact .accepted hj hc

/-! ## MANAGE -/

/-- The new display takes over what the proto display was for. -/
structure Display.For (d : Display) (from_ : Sockaddr) (p : ProtoDisplay) : Prop where
  origin : d.displayType.origin = .dFromXDMCP
  sessionID : d.sessionID = p.sessionID
  client : d.client = Client.ofAddr from_
  authorizations : d.authorizations = p.fileAuthorization

/-- A MANAGE creates a display for the proto display it names, or it changes no proto display
and creates nothing. -/
theorem manage_cases (h : manage env from_ m s = some s') :
    (Quiet s s' ∧ s'.access = s.access ∧ s'.nextId = s.nextId) ∨
    ∃ p d s1, findProtoDisplay s from_ m.displayNumber = some p ∧ p.sessionID = m.sessionID ∧
      Quiet s s1 ∧ s1.access = s.access ∧ s1.nextId = s.nextId ∧ d.id = s1.nextId ∧ d.For from_ p ∧
      s' = (disposeProtoDisplay p
        { s1 with nextId := s1.nextId + 1, displays := d :: s1.displays }).note (.managed p d) := by
  unfold manage at h
  split at h
  · cases h; exact .inl ⟨.refl s, rfl, rfl⟩
  split at h
  · split at h
    · cases h; exact .inl ⟨.refl s, rfl, rfl⟩
    · cases h; exact .inl ⟨.send s _ _, rfl, rfl⟩
  rename_i p hp
  split at h
  · cases h; exact .inl ⟨.send s _ _, rfl, rfl⟩
  rename_i hsid
  split at h
  · cases h; exact .inl ⟨.send s _ _, rfl, rfl⟩
  rename_i name hname
  have hstop : Quiet s (stopActive env name s) ∧ (stopActive env name s).access = s.access ∧
      (stopActive env name s).nextId = s.nextId := by
    unfold stopActive
    split
    · exact ⟨stopDisplay_quiet env _ s, rfl, rfl⟩
    · exact ⟨.refl s, rfl, rfl⟩
  generalize stopActive env name s = s1 at h hstop
  obtain ⟨hq, ha, hn⟩ := hstop
  dsimp only at h
  split at h
  · cases h; exact .inl ⟨hq.then_send _ _, ha, hn⟩
  split at h
  · cases h; exact .inl ⟨hq.then_send _ _, ha, hn⟩
  split at h
  · cases h; exact .inl ⟨hq.then_send _ _, ha, hn⟩
  unfold createDisplay at h
  dsimp only at h
  obtain ⟨chooser, -, hs⟩ := Option.map_eq_some_iff.mp h
  subst hs
  have hq' : Quiet s
      { s1 with choices := (s1.choices.checkIndirectChoice (Client.ofAddr from_)).2 } :=
    hq.then_frame rfl rfl rfl rfl rfl
  split
  · exact .inl ⟨hq'.then_send _ _, ha, hn⟩
  · exact .inr ⟨p, _, _, hp, not_not.mp hsid, hq', ha, hn, rfl, ⟨rfl, rfl, rfl, rfl⟩, rfl⟩

/-! ## All steps -/

/-- What a step does. -/
inductive Effect (b : Build) (crypt : Crypt) (s : Daemon) : Event → Daemon → Prop
  | quiet {e : Event} {s' : Daemon} (h : Quiet s s') (ha : KeepsAccess s e s') :
      Effect b crypt s e s'
  | starved {from_ : Sockaddr} {r : Request} {env : Env} (reason : Bytes) :
      Effect b crypt s (.packet from_ (.request r) env) (declineRequest from_ r reason (drawn s))
  | answered {from_ : Sockaddr} {r : Request} {env : Env} {p : ProtoDisplay} {s1 s' : Daemon}
      (ho : Opened s from_ r p s1) (ha : Answered b crypt env from_ r p s1 s') :
      Effect b crypt s (.packet from_ (.request r) env) s'
  | managed {from_ : Sockaddr} {m : Manage} {env : Env} {p : ProtoDisplay} {d : Display}
      {s1 : Daemon} (hp : findProtoDisplay s from_ m.displayNumber = some p)
      (hsid : p.sessionID = m.sessionID) (h : Quiet s s1) (ha : s1.access = s.access)
      (hid : d.id = s1.nextId) (hd : d.For from_ p) :
      Effect b crypt s (.packet from_ (.manage m) env)
        ((disposeProtoDisplay p
          { s1 with nextId := s1.nextId + 1, displays := d :: s1.displays }).note (.managed p d))

/-- **Every step is one of these.** -/
theorem step_effect (h : step b crypt e s = some s') : Effect b crypt s e s' := by
  cases e with
  | packet from_ pkt env =>
    cases pkt with
    | query type names length =>
      obtain ⟨hq, ha⟩ := query_quiet h
      exact .quiet hq ha
    | forward addr port names length =>
      obtain ⟨hq, ha⟩ := forwardRespond_quiet h
      exact .quiet hq ha
    | request r =>
      cases h
      rcases requestRespond_cases b crypt env from_ r s with hr | ⟨reason, hr⟩ | ⟨p, s1, ho, hr⟩
      · refine .quiet hr.quiet (.inl ?_)
        obtain ⟨c, l, hs, -⟩ := hr
        rw [hs]
      · rw [hr]
        exact .starved reason
      · rw [hr]
        exact .answered ho answerRequest_cases
    | manage m =>
      rcases manage_cases h with ⟨hq, ha, -⟩ | ⟨p, d, s1, hp, hsid, hq, ha, -, hid, hd, rfl⟩
      · exact .quiet hq (.inl ha)
      · exact .managed hp hsid hq ha hid hd
    | keepAlive n sessionID length =>
      cases h
      unfold sendAlive
      split
      · exact .quiet (.refl s) (.inl rfl)
      · exact .quiet (.send s _ _) (.inl rfl)
  | choose k host env =>
    cases h
    exact .quiet (.frame rfl rfl rfl rfl rfl) (.inl rfl)
  | loop now =>
    unfold step at h
    dsimp only at h
    split at h
    · cases h
      exact .quiet (.frame rfl rfl rfl rfl rfl) (.inl rfl)
    · cases h
  | rescan conf acc =>
    cases h
    exact .quiet (.frame rfl rfl rfl rfl rfl) (.inr (.rescan conf acc))
  | network names localAddress =>
    cases h
    exact .quiet (.frame rfl rfl rfl rfl rfl) (.inr (.network names localAddress))
  | status id st =>
    cases h
    refine .quiet (.of_eq rfl rfl rfl (fun d hd => ?_) ⟨[], rfl, by simp⟩) (.inl rfl)
    obtain ⟨d0, h0, rfl⟩ := List.mem_map.mp hd
    refine ⟨d0, h0, ?_⟩
    split
    · rfl
    · rfl
  | gone id =>
    cases h
    exact .quiet (.of_eq rfl rfl rfl (fun d hd => ⟨d, (List.mem_filter.mp hd).1, rfl⟩)
      ⟨[], rfl, by simp⟩) (.inl rfl)
  | other name type =>
    unfold step at h
    dsimp only at h
    split at h
    · cases h
    · rename_i htype
      cases h
      refine .quiet ⟨rfl, rfl, Nat.le_succ _, fun d hd => ?_, ⟨[], rfl, by simp⟩⟩ (.inl rfl)
      rcases List.mem_cons.mp hd with rfl | hd
      · exact .inr ⟨rfl, Nat.lt_succ_self _, rfl, htype⟩
      · exact .inl ⟨d, hd, rfl⟩

end Kdm.Xdmcp
