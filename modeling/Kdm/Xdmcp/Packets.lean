import Kdm.Xdmcp.Datagram
import Kdm.Xdmcp.Effects

/-!
# The packets of the service

Everything that the service sends is well formed (`Entry.Sound`), and a FORWARD_QUERY is answered
where the INDIRECT_QUERY behind it came from (`Forwards`).  The result about a received datagram,
`receive_wellFormed`, is put together from one lemma for each function that sends something.
-/

namespace Kdm.Xdmcp

open Wire

variable {b : Build} {crypt : Crypt} {env : Env} {from_ : Sockaddr} {r : Request} {m : Manage}
  {s s' s1 : Daemon} {p : ProtoDisplay} {hostname bytes : Bytes} {names : List Bytes} {n : Nat}
  {P Q : Entry → Prop} {q : Packet}

/-! ## What the service writes to its log -/

/-- All that was written to the log meets `P`. -/
def Emits (P : Entry → Prop) (s s' : Daemon) : Prop :=
  ∃ l, s'.log = l ++ s.log ∧ ∀ e ∈ l, P e

namespace Emits

theorem of_log (h : s'.log = s.log) : Emits P s s' := ⟨[], h, List.forall_mem_nil _⟩

theorem refl (s : Daemon) : Emits P s s := of_log rfl

theorem trans (h : Emits P s s1) (h' : Emits P s1 s') : Emits P s s' := by
  obtain ⟨l, hl, hP⟩ := h
  obtain ⟨l', hl', hP'⟩ := h'
  refine ⟨l' ++ l, by rw [hl', hl, List.append_assoc], fun e he => ?_⟩
  rcases List.mem_append.mp he with he | he
  · exact hP' e he
  · exact hP e he

theorem note (s : Daemon) {e : Entry} (h : P e) : Emits P s (s.note e) :=
  ⟨[e], rfl, List.forall_mem_singleton.mpr h⟩

theorem mono (h : Emits P s s') (hPQ : ∀ e, P e → Q e) : Emits Q s s' := by
  obtain ⟨l, hl, hP⟩ := h
  exact ⟨l, hl, fun e he => hPQ e (hP e he)⟩

end Emits

/-! ## What the environment gives -/

/-- `localHostname`: what `gethostname` puts into its buffer. -/
def localHostname (name : Bytes) : Bytes := (name.take 254).takeWhile (· != 0)

/-- The output of the `willing` command was read into `statusBuf`, random data have the length
that was asked for, and the helpers of RPC and Kerberos give the name of a principal. -/
structure Env.Fits (env : Env) : Prop where
  willing : env.willingMsg.length < 256
  random : ∀ n data, env.random n = some data → data.length = n
  helper : ∀ auth, env.helperAuth = some auth → auth.name.length + auth.data.length < 2 ^ 15

/-- Keys and texts are encrypted in place. -/
structure Crypt.InPlace (crypt : Crypt) : Prop where
  wrap : ∀ key data, (crypt.wrap key data).length = data.length
  incrementKey : ∀ key, (crypt.incrementKey key).length = key.length

theorem length_localHostname (name : Bytes) : (localHostname name).length ≤ 254 :=
  (List.takeWhile_sublist _).length_le.trans (List.length_take_le _ _)

/-! ## Authorizations -/

def Xauth.len (a : Xauth) : Nat := a.name.length + a.data.length

theorem findProtocol_name {name : Bytes} {a : AuthProtocol} (h : findProtocol b name = some a) :
    a.name = name := by
  have hf := List.find?_some h
  exact eq_of_beq hf

theorem generateAuthHelper_len (henv : env.Fits) {name : Bytes} {nbytes : Nat} {a : Xauth}
    (h : generateAuthHelper env name nbytes = some a) : a.len = name.length + nbytes := by
  obtain ⟨data, hdata, rfl⟩ := Option.map_eq_some_iff.mp h
  have hlen := henv.random _ _ hdata
  show name.length + data.length = _
  rw [hlen]

theorem xdmGetAuthHelper_len (henv : env.Fits) {name : Bytes} {nbytes : Nat} {a : Xauth}
    (h : xdmGetAuthHelper env name nbytes = some a) :
    a.name = name ∧ a.len = name.length + nbytes := by
  obtain ⟨a, ha, rfl⟩ := Option.map_eq_some_iff.mp h
  have hlen := generateAuthHelper_len henv ha
  obtain ⟨data, _, rfl⟩ := Option.map_eq_some_iff.mp ha
  refine ⟨rfl, ?_⟩
  show name.length + (data.set (data.length - 8) 0).length = _
  rw [List.length_set]
  exact hlen

theorem getAuth_len (henv : env.Fits) {name : Bytes} {a : AuthProtocol} {auth : Xauth}
    (ha : findProtocol b name = some a) (h : getAuth env a = some auth) :
    auth.len < 2 ^ 15 + name.length := by
  have hname := findProtocol_name ha
  unfold getAuth at h
  split at h
  · have hlen := generateAuthHelper_len henv h
    rw [hname] at hlen
    omega
  · obtain ⟨_, hlen⟩ := xdmGetAuthHelper_len henv h
    rw [hname] at hlen
    omega
  · have hlen : auth.len < 2 ^ 15 := henv.helper _ h
    omega

/-- What an ACCEPT can offer is short. -/
def ProtoDisplay.Short (p : ProtoDisplay) (n : Nat) : Prop :=
  ∀ auth, p.fileAuthorization = some auth ∨ p.xdmcpAuthorization = some auth → auth.len < 2 ^ 15 + n

theorem short_none {n : Nat} (hf : p.fileAuthorization = none) (hx : p.xdmcpAuthorization = none) :
    p.Short n := by
  rintro auth (h | h)
  · rw [hf] at h
    cases h
  · rw [hx] at h
    cases h

theorem xdmGetXdmcpAuth_short (henv : env.Fits) (hcrypt : crypt.InPlace) {name : Bytes}
    (h : p.Short name.length) : (xdmGetXdmcpAuth crypt env name p).Short name.length := by
  unfold xdmGetXdmcpAuth
  split
  · exact h
  · split
    · exact h
    · rename_i a ha
      obtain ⟨hname, hlen⟩ := xdmGetAuthHelper_len henv ha
      have hdata : a.data.length = 8 := by
        unfold Xauth.len at hlen
        rw [hname] at hlen
        omega
      dsimp only
      split
      · rintro auth (hauth | hauth)
        · cases hauth
          have htake := List.length_take_le 8 (p.authenticationData.getD env.garbage)
          show a.name.length + (List.length _) < _
          rw [List.length_append, hname, hdata]
          omega
        · cases hauth
          show a.name.length + (crypt.wrap _ a.data).length < _
          rw [hcrypt.wrap, hname, hdata]
          omega
      · exact h

theorem setProtoDisplayAuthorization_short (henv : env.Fits) (hcrypt : crypt.InPlace)
    (name : Bytes) (p : ProtoDisplay) :
    (setProtoDisplayAuthorization b crypt env name p).Short name.length := by
  unfold setProtoDisplayAuthorization
  dsimp only
  split
  · exact short_none rfl rfl
  · rename_i a ha
    split
    · exact xdmGetXdmcpAuth_short henv hcrypt (short_none rfl rfl)
    · rintro auth (hauth | hauth)
      · exact getAuth_len henv ha hauth
      · cases hauth

/-- The authorization of an ACCEPT. -/
theorem authorizeDisplay_len (henv : env.Fits) (hcrypt : crypt.InPlace) {name : Option Bytes}
    {auth : Xauth} (hn : ∀ a, name = some a → a.length ≤ n)
    (h : (authorizeDisplay b crypt env name p).1 = some auth) : auth.len < 2 ^ 15 + n := by
  cases name with
  | none => cases h
  | some name =>
    have hshort := setProtoDisplayAuthorization_short (b := b) (p := p) henv hcrypt name
    have hlen := hn name rfl
    unfold authorizeDisplay ProtoDisplay.offer at h
    dsimp only at h
    split at h
    · rename_i a ha
      have := hshort _ (.inr ha)
      cases h
      omega
    · have := hshort _ (.inl h)
      omega

/-- The authentication data keep their length. -/
theorem checkAuthentication_length (hcrypt : crypt.InPlace) (p : ProtoDisplay) :
    (checkAuthentication b crypt env r p).2.1.length = r.authenticationData.length := by
  unfold checkAuthentication
  split
  · unfold xdmcheckAuthentication
    split
    · rfl
    · split
      · rfl
      · dsimp only
        split
        · dsimp only
          rw [hcrypt.wrap, hcrypt.incrementKey, crypt.unwrap_length]
        · exact crypt.unwrap_length _ _
  · rfl

/-! ## Sound packets -/

/-- Family, port and the bytes of the address. -/
def Sockaddr.endpoint : Sockaddr → Nat × Bytes × Bytes
  | .inet port addr => (AF_INET, port.1, addr.1)
  | .inet6 port _ addr _ => (AF_INET6, port.1, addr.1)

/-- A FORWARD_QUERY with these fields, when it comes from an address of the family of `from_`, is
taken for a query of `from_`, and nobody else is answered. -/
def Forwards (from_ : Sockaddr) (clientAddress clientPort : Bytes) (names : List Bytes) : Prop :=
  ∃ client, client.endpoint = from_.endpoint ∧ ∀ b crypt env peer s,
    netaddrFamily peer = netaddrFamily from_ →
    receive b crypt env peer (forwardPacket clientAddress clientPort names).bytes s =
        allQueryRespond b env client names .forward s ∧
      ∀ s', allQueryRespond b env client names .forward s = some s' →
        Emits (fun e => ∃ status,
          e = .sent client (.willing (chooseAuthentication b names) status)) s s'

/-- **What is sent**: the header states the right length, and a FORWARD_QUERY passes on a query. -/
structure Entry.Sound (hostname : Bytes) (from_ : Sockaddr) (q : Packet) (e : Entry) : Prop where
  wellFormed : ∀ d, e.datagram hostname = some d → d.WellFormed
  forwards : ∀ dest addr port names, e = .sent dest (.forwardQuery addr port names) →
    (∃ length, q = .query .indirect names length) ∧ Forwards from_ addr port names

namespace Entry.Sound

theorem silent {e : Entry} (h : e.datagram hostname = none) : e.Sound hostname from_ q where
  wellFormed := by
    intro d hd
    rw [h] at hd
    cases hd
  forwards := by
    rintro dest addr port names rfl
    cases h

theorem sent {dest : Sockaddr} {reply : Reply} (h : (reply.datagram hostname).WellFormed)
    (hf : ∀ addr port names, reply ≠ .forwardQuery addr port names) :
    (Entry.sent dest reply).Sound hostname from_ q where
  wellFormed := by
    intro d hd
    cases hd
    exact h
  forwards := by
    rintro _ addr port names he
    cases he
    exact absurd rfl (hf addr port names)

end Entry.Sound

/-! ## Queries -/

theorem chooseAuthentication_length (b : Build) (h : arraysLength names ≤ n) :
    (chooseAuthentication b names).length ≤ n := by
  unfold chooseAuthentication
  cases hf : names.find? fun n => (authTable b).any fun a => n == a.1 with
  | none => exact Nat.zero_le n
  | some a =>
    have hmem := length_of_mem (List.mem_of_find?_eq_some hf)
    show a.length ≤ n
    omega

theorem isWilling_status {k : Client} {type : Access.QueryType} {ret : Bool}
    {status : Bytes} (h : isWilling env k type s = some (ret, status, s')) :
    (env.Fits → status.length < 256) ∧ s'.log = s.log := by
  unfold isWilling at h
  dsimp only at h
  obtain ⟨ret, _, hs⟩ := Option.map_eq_some_iff.mp h
  cases hs
  have hstatus (henv : env.Fits) (quiet : Bool) : (if ret = true then
      if quiet = true then ascii "Willing to manage" else env.willingMsg
      else notAuthorized).length < 256 := by
    cases ret with
    | false =>
      show notAuthorized.length < 256
      decide
    | true =>
      cases quiet with
      | false => exact henv.willing
      | true =>
        show (ascii "Willing to manage").length < 256
        decide
  refine ⟨fun henv => hstatus henv _, ?_⟩
  split
  · rfl
  · rfl

/-- An answer to a query goes to the client, and says which authentication was chosen. -/
theorem allQueryRespond_emits {client : Sockaddr} {type : Access.QueryType}
    (h : allQueryRespond b env client names type s = some s') :
    Emits (fun e => ∃ status : Bytes, (env.Fits → status.length < 256) ∧
      (e = .sent client (.willing (chooseAuthentication b names) status) ∨
        type = .query ∧ e = .sent client (.unwilling status))) s s' := by
  unfold allQueryRespond at h
  dsimp only at h
  obtain ⟨⟨ret, status, s2⟩, hw, hs⟩ := Option.map_eq_some_iff.mp h
  obtain ⟨hstatus, hlog⟩ := isWilling_status hw
  have hlog : s2.log = s.log := by
    rw [hlog]
    split
    · rfl
    · rfl
  refine (Emits.of_log hlog).trans ?_
  dsimp only at hs
  subst hs
  split
  · exact Emits.note s2 ⟨status, hstatus, .inl rfl⟩
  · split
    · rename_i htype
      exact Emits.note s2 ⟨status, hstatus, .inr ⟨htype, rfl⟩⟩
    · exact Emits.refl s2

theorem allQueryRespond_sound (henv : env.Fits) {client : Sockaddr} {type : Access.QueryType}
    (hhost : hostname.length < 256) (hn : arraysLength names ≤ 2 ^ 15)
    (h : allQueryRespond b env client names type s = some s') :
    Emits (Entry.Sound hostname from_ q) s s' := by
  have hauth := chooseAuthentication_length b hn
  refine (allQueryRespond_emits h).mono ?_
  rintro _ ⟨status, hstatus, rfl | ⟨_, rfl⟩⟩ <;> have hstatus := hstatus henv
  · exact .sent (sendWilling_wellFormed (by omega)) nofun
  · exact .sent (sendUnwilling_wellFormed (by omega)) nofun

/-! ## FORWARD_QUERY -/

theorem netaddrAddress_le (a : Sockaddr) : (netaddrAddress a).length ≤ 16 := by
  rw [← convertAddr_snd]
  rcases convertAddr_length a with ⟨_, h⟩ | ⟨_, h⟩
  · omega
  · omega

theorem netaddrPort_length (a : Sockaddr) : (netaddrPort a).length = 2 := by
  cases a with
  | inet port addr => exact port.2
  | inet6 port flowinfo addr scope => exact port.2

/-- **The client is rebuilt** from what `convertClientAddress` made of it, by every peer of its own
family. -/
theorem forwardedClient_endpoint (from_ : Sockaddr) :
    ∃ client, client.endpoint = from_.endpoint ∧ ∀ peer, netaddrFamily peer = netaddrFamily from_ →
      forwardedClient peer (Client.ofAddr from_).addr (Client.ofAddr from_).port = some client := by
  cases from_ with
  | inet port addr =>
    refine ⟨.inet port addr, rfl, fun peer h => ?_⟩
    cases peer with
    | inet port' addr' =>
      show forwardedClient _ addr.1 port.1 = _
      unfold forwardedClient
      rw [dif_pos port.2]
      dsimp only
      rw [dif_pos addr.2]
    | inet6 port' flowinfo' addr' scope' => cases h
  | inet6 port flowinfo addr scope =>
    refine ⟨.inet6 port (zeros 4) addr (zeros 4), rfl, fun peer h => ?_⟩
    cases peer with
    | inet port' addr' => cases h
    | inet6 port' flowinfo' addr' scope' =>
      show forwardedClient _ (convertAddr (.inet6 port flowinfo addr scope)).2 port.1 = _
      rw [convertAddr_snd]
      cases hm : IN6_IS_ADDR_V4MAPPED addr with
      | false =>
        have ha : netaddrAddress (.inet6 port flowinfo addr scope) = addr.1 := by
          unfold netaddrAddress
          exact if_neg (by rw [hm]; exact Bool.false_ne_true)
        rw [ha]
        unfold forwardedClient
        rw [dif_pos port.2]
        dsimp only
        rw [dif_pos addr.2]
      | true =>
        -- the prefix that was cut off is put in front again
        have ha : netaddrAddress (.inet6 port flowinfo addr scope) = addr.1.drop 12 := by
          unfold netaddrAddress
          exact if_pos hm
        have hpre : addr.1.take 12 = v4Prefix := eq_of_beq hm
        have hlen : (addr.1.drop 12).length = 4 := by rw [List.length_drop, addr.2]
        rw [ha]
        unfold forwardedClient
        rw [dif_pos port.2]
        dsimp only
        rw [dif_neg (by omega), dif_pos hlen]
        congr 2
        apply Subtype.ext
        show v4Prefix ++ addr.1.drop 12 = addr.1
        rw [← hpre, List.take_append_drop]

theorem length_ofAddr (a : Sockaddr) :
    (Client.ofAddr a).addr.length ≤ 16 ∧ (Client.ofAddr a).port.length = 2 := by
  refine ⟨?_, netaddrPort_length a⟩
  show (convertAddr a).2.length ≤ 16
  rw [convertAddr_snd]
  exact netaddrAddress_le a

/-- **The FORWARD_QUERY of an INDIRECT_QUERY** passes the checks of `forward_respond`. -/
theorem forwards_ofAddr (hn : names.length < 2 ^ 8) (h : arraysLength names ≤ 2 ^ 15) :
    Forwards from_ (Client.ofAddr from_).addr (Client.ofAddr from_).port names := by
  obtain ⟨haddr, hport⟩ := length_ofAddr from_
  have hread : readPacket
      (forwardPacket (Client.ofAddr from_).addr (Client.ofAddr from_).port names).bytes = _ :=
    reads_forwardPacket hn (by omega)
  obtain ⟨client, hend, hclient⟩ := forwardedClient_endpoint from_
  refine ⟨client, hend, fun b crypt env peer s hpeer => ⟨?_, fun s' hs' => ?_⟩⟩
  · unfold receive
    rw [hread]
    show forwardRespond b env peer _ _ names _ s = _
    unfold forwardRespond
    rw [if_neg (by omega), hclient peer hpeer]
  · refine (allQueryRespond_emits hs').mono ?_
    rintro e ⟨status, _, rfl | ⟨ht, _⟩⟩
    · exact ⟨status, rfl⟩
    · cases ht

/-! ## Packets that arrive -/

theorem sendForward_sound {length : Nat} (hn : names.length < 2 ^ 8)
    (h : arraysLength names ≤ 2 ^ 15) (hosts : List (UInt16 × Bytes)) :
    Emits (Entry.Sound hostname from_ (.query .indirect names length)) s
      (hosts.foldl (fun s dest => sendForward (Client.ofAddr from_) names dest s) s) := by
  induction hosts generalizing s with
  | nil => exact Emits.refl s
  | cons dest hosts ih =>
    refine Emits.trans ?_ ih
    obtain ⟨haddr, hport⟩ := length_ofAddr from_
    unfold sendForward
    dsimp only
    split
    · refine Emits.note s ⟨?_, ?_⟩
      · intro d hd
        cases hd
        exact forwardPacket_wellFormed hn (by omega)
      · intro dest' addr port ns he
        cases he
        exact ⟨⟨length, rfl⟩, forwards_ofAddr hn h⟩
    · exact Emits.refl s

theorem indirectRespond_sound (henv : env.Fits) {length : Nat} (hhost : hostname.length < 256)
    (hn : names.length < 2 ^ 8) (hlen : arraysLength names ≤ 2 ^ 15)
    (h : indirectRespond b env from_ names length s = some s') :
    Emits (Entry.Sound hostname from_ (.query .indirect names length)) s s' := by
  unfold indirectRespond at h
  split at h
  · cases h
    exact Emits.refl s
  · obtain ⟨⟨hosts, localHostAsWell⟩, _, h⟩ := Option.bind_eq_some_iff.mp h
    have hforward : Emits (Entry.Sound hostname from_ (.query .indirect names length)) s
        (hosts.foldl (fun s dest => sendForward (Client.ofAddr from_) names dest s) s) :=
      sendForward_sound hn hlen hosts
    dsimp only at h
    split at h
    · exact hforward.trans (allQueryRespond_sound henv hhost hlen h)
    · cases h
      exact hforward

theorem directQueryRespond_sound (henv : env.Fits) {length : Nat} {type : Access.QueryType}
    (hhost : hostname.length < 256) (hlen : arraysLength names ≤ 2 ^ 15)
    (h : directQueryRespond b env from_ names length type s = some s') :
    Emits (Entry.Sound hostname from_ q) s s' := by
  unfold directQueryRespond at h
  split at h
  · cases h
    exact Emits.refl s
  · exact allQueryRespond_sound henv hhost hlen h

theorem forwardRespond_sound (henv : env.Fits) {length : Nat} {addr port : Bytes}
    (hhost : hostname.length < 256) (hlen : arraysLength names ≤ 2 ^ 15)
    (h : forwardRespond b env from_ addr port names length s = some s') :
    Emits (Entry.Sound hostname from_ q) s s' := by
  unfold forwardRespond at h
  split at h
  · cases h
    exact Emits.refl s
  · split at h
    · cases h
      exact Emits.refl s
    · exact allQueryRespond_sound henv hhost hlen h

/-- Nothing of this is sent. -/
theorem timeoutProtoDisplays_sound (s : Daemon) :
    Emits (Entry.Sound hostname from_ q) s (timeoutProtoDisplays s) := by
  refine ⟨_, rfl, fun e he => ?_⟩
  obtain ⟨p, _, rfl⟩ := List.mem_map.mp he
  exact .silent rfl

theorem declineRequest_sound {reason : Bytes} (hreason : reason.length < 256)
    (hr : r.authenticationName.length + r.authenticationData.length ≤ 2 ^ 15) (s : Daemon) :
    Emits (Entry.Sound hostname from_ q) s (declineRequest from_ r reason s) :=
  Emits.note s (.sent (sendDecline_wellFormed (by omega)) nofun)

theorem declineDisplay_sound {reason data : Bytes} (hreason : reason.length < 256)
    (hr : r.authenticationName.length + data.length ≤ 2 ^ 15) (s : Daemon) :
    Emits (Entry.Sound hostname from_ q) s (declineDisplay from_ r reason data p s) := by
  refine (Emits.note s ?_).trans ((Emits.of_log rfl).trans (Emits.note _ (.silent rfl)))
  exact .sent (sendDecline_wellFormed (by omega)) nofun

theorem noteXdmAuth_sound (name : Option Bytes) (s : Daemon) :
    Emits (Entry.Sound hostname from_ q) s (s.noteXdmAuth b name p) := by
  unfold Daemon.noteXdmAuth
  split
  · exact Emits.note s (.silent rfl)
  · exact Emits.refl s

theorem answerRequest_sound (henv : env.Fits) (hcrypt : crypt.InPlace) (hn : n ≤ 2 ^ 13)
    (hq : (Packet.request r).Fits n) (s : Daemon) :
    Emits (Entry.Sound hostname from_ q) s (answerRequest b crypt env from_ r p s) := by
  obtain ⟨hlen, hnames⟩ := hq
  have hdata : (checkAuthentication b crypt env r p).2.1.length = r.authenticationData.length :=
    checkAuthentication_length hcrypt p
  unfold answerRequest
  split
  · refine declineDisplay_sound ?_ (by omega) s
    show (ascii "No valid authorization").length < 256
    decide
  · rename_i j hj
    split
    · rename_i data p1 hc
      rw [hc] at hdata
      dsimp only at hdata
      refine declineDisplay_sound ?_ (by omega) s
      show (ascii "XDM has no authentication key").length < 256
      decide
    · rename_i data p1 hc
      rw [hc] at hdata
      dsimp only at hdata ⊢
      have hauth (auth : Xauth) (ha : (authorizeDisplay b crypt env r.authorizationNames[j]? p1).1 =
          some auth) : auth.len < 2 ^ 15 + n :=
        authorizeDisplay_len henv hcrypt (fun a ha => hnames a (List.mem_of_getElem? ha)) ha
      refine ((noteXdmAuth_sound _ s).trans (Emits.of_log rfl)).trans (Emits.note _ ?_)
      refine ⟨?_, nofun⟩
      intro d hd
      cases hd
      apply sendAcceptPacket_wellFormed
      unfold acceptPacket
      dsimp only
      cases hoffer : (authorizeDisplay b crypt env r.authorizationNames[j]? p1).1 with
      | none =>
        show 12 + r.authenticationName.length + data.length + 0 + 0 < 2 ^ 16
        omega
      | some auth =>
        have hshort := hauth auth hoffer
        unfold Xauth.len at hshort
        show 12 + r.authenticationName.length + data.length + auth.name.length +
          auth.data.length < 2 ^ 16
        omega

theorem requestRespond_sound (henv : env.Fits) (hcrypt : crypt.InPlace) (hn : n ≤ 2 ^ 13)
    (hq : (Packet.request r).Fits n) (s : Daemon) :
    Emits (Entry.Sound hostname from_ q) s (requestRespond b crypt env from_ r s) := by
  have hr : r.authenticationName.length + r.authenticationData.length ≤ 2 ^ 15 := by
    have := hq.1
    omega
  have haddr : noValidAddr.length < 256 := by decide
  have hmemory : outOfMemory.length < 256 := by decide
  unfold requestRespond
  split
  · exact Emits.refl s
  split
  · exact declineRequest_sound haddr hr s
  split
  · exact answerRequest_sound henv hcrypt hn hq s
  · simp only [isAccepting]
    split
    · exact declineRequest_sound haddr hr s
    · unfold newProtoDisplay
      dsimp only
      have hdrawn : Emits (Entry.Sound hostname from_ q) _
          (timeoutProtoDisplays { s with globalSessionID := s.globalSessionID + 1 }) :=
        timeoutProtoDisplays_sound _
      split
      · rename_i s1 hnew
        split at hnew
        · cases hnew
        · cases hnew
          exact (hdrawn.trans (declineRequest_sound hmemory hr _))
      · rename_i pdpy s1 hnew
        split at hnew
        · cases hnew
          exact (hdrawn.trans (answerRequest_sound henv hcrypt hn hq _))
        · cases hnew

theorem manage_sound (h : manage env from_ m s = some s') :
    Emits (Entry.Sound hostname from_ q) s s' := by
  have hfail (name : Bytes) (s : Daemon) :
      Emits (Entry.Sound hostname from_ q) s (s.fail from_ m.sessionID name) :=
    Emits.note s (.sent (sendFailed_wellFormed (by decide)) nofun)
  have hrefuse (s : Daemon) :
      Emits (Entry.Sound hostname from_ q) s (s.send from_ (.refuse m.sessionID)) :=
    Emits.note s (.sent (sendRefuse_wellFormed _) nofun)
  have hstop (name : Bytes) : (stopActive env name s).log = s.log := by
    unfold stopActive
    split
    · rfl
    · rfl
  unfold manage at h
  split at h
  · cases h
    exact Emits.refl s
  split at h
  · split at h
    · cases h
      exact Emits.refl s
    · cases h
      exact hrefuse s
  split at h
  · cases h
    exact hrefuse s
  split at h
  · cases h
    exact hfail _ s
  rename_i name _
  refine (Emits.of_log (hstop name)).trans ?_
  dsimp only at h
  split at h
  · cases h
    exact hfail _ _
  split at h
  · cases h
    exact hfail _ _
  split at h
  · cases h
    exact hfail _ _
  unfold createDisplay at h
  dsimp only at h
  obtain ⟨chooser, _, hs⟩ := Option.map_eq_some_iff.mp h
  subst hs
  split
  · exact (Emits.of_log rfl).trans (hfail _ _)
  · exact (Emits.of_log rfl).trans (Emits.note _ (.silent rfl))

theorem sendAlive_sound (displayNumber : UInt16) (sessionID : UInt32) (length : Nat) (s : Daemon) :
    Emits (Entry.Sound hostname from_ q) s (sendAlive from_ displayNumber sessionID length s) := by
  unfold sendAlive
  split
  · exact Emits.refl s
  · exact Emits.note s (.sent (alivePacket_wellFormed _ _) nofun)

/-- **Everything that is sent** in answer to a datagram is well formed, and a FORWARD_QUERY makes
every peer of the client's family answer the client; so is the FAILED packet for a display that
cannot be opened. -/
theorem receive_wellFormed (name : Bytes) (hcrypt : crypt.InPlace) (henv : env.Fits)
    (hlen : bytes.length ≤ XDM_MAX_MSGLEN) (h : receive b crypt env from_ bytes s = some s') :
    (∃ l, s'.log = l ++ s.log ∧ ∀ e ∈ l, ∃ q rest, readPacket bytes = some (q, rest) ∧
      e.Sound (localHostname name) from_ q) ∧
    ∀ sessionID display, (sendFailed sessionID display (ascii "cannot open display")).WellFormed := by
  have hhost := length_localHostname name
  refine ⟨?_, fun sessionID display => sendFailed_wellFormed (by decide)⟩
  unfold receive at h
  cases hread : readPacket bytes with
  | none =>
    rw [hread] at h
    cases h
    exact ⟨[], rfl, List.forall_mem_nil _⟩
  | some read =>
    obtain ⟨q, rest⟩ := read
    rw [hread] at h
    have hfits := readPacket_fits hread
    unfold XDM_MAX_MSGLEN at hlen
    have hall : Emits (Entry.Sound (localHostname name) from_ q) s s' := by
      cases q with
      | query type names length =>
        obtain ⟨hn, hnames⟩ := hfits
        cases type with
        | indirect => exact indirectRespond_sound henv (by omega) hn (by omega) h
        | query => exact directQueryRespond_sound henv (by omega) (by omega) h
        | broadcast => exact directQueryRespond_sound henv (by omega) (by omega) h
        | forward => exact directQueryRespond_sound henv (by omega) (by omega) h
      | forward addr port names length =>
        obtain ⟨hn, hnames⟩ := hfits
        exact forwardRespond_sound henv (by omega) (by omega) h
      | request r =>
        cases h
        exact requestRespond_sound henv hcrypt (by omega) hfits s
      | manage m => exact manage_sound h
      | keepAlive displayNumber sessionID length =>
        cases h
        exact sendAlive_sound displayNumber sessionID length s
    obtain ⟨l, hl, hs⟩ := hall
    exact ⟨l, hl, fun e he => ⟨q, rest, rfl, hs e he⟩⟩

namespace Sample

theorem env_fits : Env.Fits {} := ⟨by decide, nofun, nofun⟩

theorem cipher_inPlace : cipher.InPlace := ⟨fun _ _ => rfl, fun _ => rfl⟩

/-- A QUERY without authentication names. -/
def query : Bytes := [0, 1, 0, 2, 0, 1, 0]

def start : Daemon := initXdmcp conf access 0 0

theorem query_length : query.length ≤ XDM_MAX_MSGLEN := by decide

end Sample

/-- A client is refused. -/
theorem receive_query : ∃ s', receive Sample.build Sample.cipher {} Sample.client Sample.query
    Sample.start = some s' ∧ s'.log.length = 1 ∧
    ∃ l, s'.log = l ++ Sample.start.log ∧ ∀ e ∈ l, ∃ q rest,
      readPacket Sample.query = some (q, rest) ∧ e.Sound (localHostname []) Sample.client q := by
  have h : receive Sample.build Sample.cipher {} Sample.client Sample.query Sample.start =
    some _ := rfl
  exact ⟨_, h, rfl, (receive_wellFormed [] Sample.cipher_inPlace Sample.env_fits
    Sample.query_length h).1⟩

end Kdm.Xdmcp
