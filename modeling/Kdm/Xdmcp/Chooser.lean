import Kdm.Lib.Keyed
import Kdm.Xdmcp.Tables

/-!
# The host choice of a user

The chooser of a remote display reports the host that its user wants, and the next indirect query
of the client is to go there.  `chooseHost` sends the address of a host in the list,
`directChooseHost` the socket address of a host that was entered by name, and the daemon forwards
network addresses of the client's own family only (`hostChoice_iff`).
-/

namespace Kdm.Xdmcp

open Runs

variable {b : Build} {crypt : Crypt} {env : Env} {s s' s0 s1 : Daemon} {e : Event} {k : Client}
  {from_ : Sockaddr} {a : Sockaddr} {names : List Bytes} {length : Nat}

/-! ## The chooser -/

/-- `HostName` without the texts for the user; `id` stands for its address. -/
structure HostName where
  id : Nat
  connectionType : UInt16
  hostaddr : Bytes
  deriving DecidableEq

/-- The address of a host that answered, as `addHostname` takes it apart. -/
def hostAddress : Sockaddr → UInt16 × Bytes
  | .inet _ addr => (FamilyInternet, addr.1)
  | .inet6 _ _ addr _ => (FamilyInternet6, addr.1)

def addHostname (id : Nat) (addr : Sockaddr) (hostNamedb : List HostName) : List HostName :=
  let (connectionType, hostAddr) := hostAddress addr
  if hostNamedb.any fun h => h.connectionType == connectionType && h.hostaddr == hostAddr then
    hostNamedb
  else hostNamedb ++ [⟨id, connectionType, hostAddr⟩]

/-- `addHostaddr` compares port and address, and puts new hosts in front. -/
def addHostaddr (hosts : List Sockaddr) (addr : Sockaddr) : List Sockaddr :=
  if hosts.any fun h => hostAddress h == hostAddress addr && netaddrPort h == netaddrPort addr then
    hosts
  else addr :: hosts

/-- `makeSockAddrs` for the addresses `getaddrinfo` found. -/
def makeSockAddrs (ai : List Sockaddr) : List Sockaddr := ai.foldl addHostaddr []

inductive ChooserMsg where
  | remoteHost (host : Bytes)
  | chooseHost (client : Client) (hostaddr : Bytes)

/-- The message about the host that was selected from the list. -/
def chooseHost (inet_ntop : UInt16 → Bytes → Bytes) (td : Display) (hostNamedb : List HostName)
    (hid : Nat) : Option ChooserMsg :=
  (hostNamedb.find? (·.id == hid)).map fun h =>
    if td.displayType.location = .dLocal then .remoteHost (inet_ntop h.connectionType h.hostaddr)
    else .chooseHost td.client h.hostaddr

/-- The message about the host that was entered. -/
def directChooseHost (td : Display) (name : Bytes) (ai : List Sockaddr) : Option ChooserMsg :=
  (makeSockAddrs ai).head?.map fun addr =>
    if td.displayType.location = .dLocal then .remoteHost name
    else .chooseHost td.client addr.bytes

/-- `D_ChooseHost` is processed. -/
def ChooserMsg.event (env : Env) : ChooserMsg → Option Event
  | .remoteHost _ => none
  | .chooseHost client hostaddr => some (.choose client hostaddr env)

/-! ## Records of clients -/

def ChoiceRec.key (c : ChoiceRec) : Client := ⟨c.client, c.port, c.connectionType⟩

theorem ChoiceRec.isOf_iff {c : ChoiceRec} : c.isOf k = true ↔ c.key = k := by
  obtain ⟨addr, port, type⟩ := k
  unfold ChoiceRec.isOf ChoiceRec.key
  rw [Client.mk.injEq, Bool.and_eq_true, Bool.and_eq_true, beq_iff_eq, beq_iff_eq, beq_iff_eq,
    and_assoc, eq_comm, @eq_comm _ port, @eq_comm _ type]

namespace Choices

variable {choices : Choices} {malloc : Alloc → Bool} {timeout : Int} {choice : Option Bytes}
  {c : ChoiceRec} {now : Int}

/-- There is one record for a client. -/
def Unique (choices : Choices) : Prop := (choices.map ChoiceRec.key).Nodup

theorem Unique.find? (h : Unique choices) (hc : c ∈ choices) (hk : c.key = k) :
    choices.find? (·.isOf k) = some c := by
  have hp : (fun c : ChoiceRec => c.isOf k) = fun c => decide (c.key = k) := by
    funext c
    rw [Bool.eq_iff_iff, ChoiceRec.isOf_iff, decide_eq_true_eq]
  rw [hp, ← hk]
  exact Keyed.get_of_mem h hc

theorem Unique.eraseP_ne (h : Unique choices) (hc : c ∈ choices.eraseP (·.isOf k)) : c.key ≠ k := by
  induction choices with
  | nil => cases hc
  | cons a l ih =>
    obtain ⟨hnot, hl⟩ := List.nodup_cons.mp h
    by_cases ha : a.isOf k = true
    · rw [List.eraseP_cons_of_pos (p := fun c : ChoiceRec => c.isOf k) ha] at hc
      intro hk
      exact hnot (List.mem_map.mpr ⟨c, hc, hk.trans (ChoiceRec.isOf_iff.mp ha).symm⟩)
    · rw [List.eraseP_cons_of_neg (p := fun c : ChoiceRec => c.isOf k) ha] at hc
      rcases List.mem_cons.mp hc with rfl | hc
      · exact fun hk => ha (ChoiceRec.isOf_iff.mpr hk)
      · exact ih hl hc

theorem Unique.sublist {l : Choices} (h : Unique choices) (hl : l.Sublist choices) : Unique l :=
  List.Nodup.sublist (hl.map _) h

theorem Unique.snoc {l : Choices} (h : Unique l) (hne : ∀ a ∈ l, a.key ≠ c.key) :
    Unique (l ++ [c]) := by
  unfold Unique
  rw [List.map_append]
  refine List.nodup_append.mpr ⟨h, List.nodup_singleton _, fun x hx y hy => ?_⟩
  obtain ⟨a, ha, rfl⟩ := List.mem_map.mp hx
  cases List.mem_singleton.mp hy
  exact hne a ha

/-- What is registered for a client replaces what was there, and leaves the others alone. -/
inductive Registered (choices : Choices) (k : Client) (timeout : Int) (choice : Option Bytes) :
    Choices → Prop
  | lost {l : Choices} (h : l.Sublist choices) (hk : ∀ c ∈ choices, c.key ≠ k → c ∈ l) :
      Registered choices k timeout choice l
  | stored {l : Choices} {c : ChoiceRec} (h : l.Sublist choices)
      (hk : ∀ c ∈ choices, c.key ≠ k → c ∈ l) (hne : Unique choices → ∀ c ∈ l, c.key ≠ k)
      (hc : c.key = k) (ht : c.timeout = timeout) (hchoice : choice.isSome → c.choice = choice) :
      Registered choices k timeout choice (l ++ [c])

theorem mem_eraseP (hc : c ∈ choices) (hk : c.key ≠ k) : c ∈ choices.eraseP (·.isOf k) :=
  (List.mem_eraseP_of_neg (p := fun c : ChoiceRec => c.isOf k) fun h => hk (ChoiceRec.isOf_iff.mp h)).mpr hc

theorem registerIndirectChoice_registered (choices : Choices) (k : Client) (malloc : Alloc → Bool)
    (timeout : Int) (choice : Option Bytes) :
    Registered choices k timeout choice
      (choices.registerIndirectChoice k malloc timeout choice) := by
  unfold registerIndirectChoice
  dsimp only
  split
  · rename_i c hc
    have hkey : c.key = k := by
      have hf := List.find?_some hc
      exact ChoiceRec.isOf_iff.mp hf
    have hne (hu : Unique choices) : ∀ c ∈ choices.eraseP (·.isOf k), c.key ≠ k :=
      fun c hc => hu.eraseP_ne hc
    cases choice with
    | none => exact .stored List.eraseP_sublist (fun _ => mem_eraseP) hne hkey rfl nofun
    | some h =>
      dsimp only
      split
      · exact .stored List.eraseP_sublist (fun _ => mem_eraseP) hne hkey rfl fun _ => rfl
      · exact .lost List.eraseP_sublist fun _ => mem_eraseP
  · rename_i hnone
    have hne : ∀ c ∈ choices, c.key ≠ k := fun c hc hk =>
      List.find?_eq_none.mp hnone c hc (ChoiceRec.isOf_iff.mpr hk)
    split
    · cases choice with
      | none => exact .stored (List.Sublist.refl _) (fun _ h _ => h) (fun _ => hne) rfl rfl nofun
      | some h =>
        dsimp only
        split
        · exact .stored (List.Sublist.refl _) (fun _ h _ => h) (fun _ => hne) rfl rfl fun _ => rfl
        · exact .lost (List.Sublist.refl _) fun _ h _ => h
    · exact .lost (List.Sublist.refl _) fun _ h _ => h

/-- With memory for it the choice is stored. -/
theorem registerIndirectChoice_mem {host : Bytes} (hm : malloc .choice = true)
    (hrec : (malloc .choiceRec && malloc .choiceClient && malloc .choicePort) = true) :
    ∃ c ∈ choices.registerIndirectChoice k malloc timeout (some host),
      c.key = k ∧ c.choice = some host ∧ c.timeout = timeout := by
  unfold registerIndirectChoice
  dsimp only
  split
  · rename_i c hc
    rw [if_pos hm]
    have hf := List.find?_some hc
    exact ⟨_, List.mem_append_right _ List.mem_cons_self, ChoiceRec.isOf_iff.mp hf, rfl, rfl⟩
  · rw [if_pos hrec, if_pos hm]
    exact ⟨_, List.mem_append_right _ List.mem_cons_self, rfl, rfl, rfl⟩

theorem Unique.registered {l : Choices} (h : Unique choices)
    (hr : Registered choices k timeout choice l) : Unique l := by
  cases hr with
  | lost hl _ => exact h.sublist hl
  | stored hl _ hne hc _ _ => exact (h.sublist hl).snoc fun a ha => hc ▸ hne h a ha

theorem Registered.mem {l : Choices} (hr : Registered choices k timeout choice l) (hc : c ∈ choices)
    (hk : c.key ≠ k) : c ∈ l := by
  cases hr with
  | lost _ h => exact h c hc hk
  | stored _ h _ _ _ _ => exact List.mem_append_left _ (h c hc hk)

theorem checkIndirectChoice_sublist : (choices.checkIndirectChoice k).2.Sublist choices := by
  unfold checkIndirectChoice
  split
  · exact List.Sublist.refl _
  · exact List.eraseP_sublist

theorem mem_checkIndirectChoice (hc : c ∈ choices) (hk : c.key ≠ k) :
    c ∈ (choices.checkIndirectChoice k).2 := by
  unfold checkIndirectChoice
  split
  · exact hc
  · exact mem_eraseP hc hk

theorem mem_disposeIndirectHosts (hc : c ∈ choices) (ht : now < c.timeout) :
    c ∈ choices.disposeIndirectHosts now := by
  unfold disposeIndirectHosts
  induction choices with
  | nil => cases hc
  | cons a l ih =>
    rw [List.dropWhile_cons]
    split
    · rename_i ha
      rcases List.mem_cons.mp hc with rfl | hc
      · simp [ht] at ha
      · exact ih hc
    · exact hc

end Choices

/-! ## What a step does to the records -/

/-- The client whose record an event may touch. -/
def Event.client (s : Daemon) : Event → Option Client
  | .packet from_ (.query _ names length) _ =>
    if length = arraysLength names then some (Client.ofAddr from_) else none
  | .packet from_ (.forward addr port names length) _ =>
    if length = (2 + addr.length) + (2 + port.length) + arraysLength names then
      (forwardedClient from_ addr port).map Client.ofAddr
    else none
  | .packet from_ (.manage m) _ =>
    if m.expectlen = m.length ∧
        (findProtoDisplay s from_ m.displayNumber).any (·.sessionID == m.sessionID) = true then
      some (Client.ofAddr from_)
    else none
  | .choose k _ _ => some k
  | _ => none

inductive Moves (s : Daemon) (e : Event) (s' : Daemon) : Prop
  | same (h : s'.choices = s.choices)
  | registered {k : Client} {timeout : Int} {choice : Option Bytes} (hk : e.client s = some k)
      (h : Choices.Registered s.choices k timeout choice s'.choices)
  | checked {k : Client} (hk : e.client s = some k)
      (h : s'.choices = (s.choices.checkIndirectChoice k).2)
  | disposed {now : Int} (he : e = .loop now) (h : s'.choices = s.choices.disposeIndirectHosts now)

theorem isWilling_choices {type : Access.QueryType} {ret : Bool} {status : Bytes}
    (h : isWilling env k type s = some (ret, status, s')) : s'.choices = s.choices := by
  unfold isWilling at h
  dsimp only at h
  obtain ⟨_, -, hs⟩ := Option.map_eq_some_iff.mp h
  cases hs
  split <;> rfl

theorem allQueryRespond_choices {type : Access.QueryType}
    (h : allQueryRespond b env from_ names type s = some s') :
    (type = .indirect ∧ s'.choices = s.choices.registerIndirectChoice (Client.ofAddr from_)
        env.malloc (s.now + s.conf.choiceTimeout) none) ∨
      (type ≠ .indirect ∧
        s'.choices = (s.choices.checkIndirectChoice (Client.ofAddr from_)).2) := by
  unfold allQueryRespond at h
  dsimp only at h
  obtain ⟨⟨ret, status, s2⟩, hw, hs⟩ := Option.map_eq_some_iff.mp h
  have hc := isWilling_choices hw
  have hs' : s'.choices = s2.choices := by
    subst hs
    dsimp only
    split
    · rfl
    · split <;> rfl
  rw [hs', hc]
  by_cases ht : type = .indirect
  · exact .inl ⟨ht, by rw [if_pos ht]⟩
  · exact .inr ⟨ht, by rw [if_neg ht]⟩

theorem answerRequest_choices {r : Request} {p : ProtoDisplay} :
    (answerRequest b crypt env from_ r p s).choices = s.choices := by
  unfold answerRequest
  split
  · rfl
  · split
    · rfl
    · dsimp only
      unfold sendAccept Daemon.noteXdmAuth
      split <;> rfl

theorem requestRespond_choices (b : Build) (crypt : Crypt) (env : Env) (from_ : Sockaddr)
    (r : Request) (s : Daemon) : (requestRespond b crypt env from_ r s).choices = s.choices := by
  unfold requestRespond
  split
  · rfl
  split
  · rfl
  split
  · exact answerRequest_choices
  simp only [isAccepting]
  split
  · rfl
  unfold newProtoDisplay
  dsimp only
  split
  · rename_i h
    split at h <;> cases h
    rfl
  · rename_i h
    split at h <;> cases h
    exact answerRequest_choices

theorem sendForward_choices (k : Client) (names : List Bytes) (hosts : List (UInt16 × Bytes)) :
    ∀ s : Daemon, (hosts.foldl (fun s dest => sendForward k names dest s) s).choices = s.choices := by
  induction hosts with
  | nil => exact fun _ => rfl
  | cons dest hosts ih =>
    intro s
    rw [List.foldl_cons, ih]
    unfold sendForward
    split <;> rfl

theorem manage_moves {m : Manage} (h : manage env from_ m s = some s') :
    Moves s (.packet from_ (.manage m) env) s' := by
  unfold manage at h
  split at h
  · cases h; exact .same rfl
  rename_i hlen
  split at h
  · split at h <;> cases h <;> exact .same rfl
  rename_i p hp
  split at h
  · cases h; exact .same rfl
  rename_i hsid
  split at h
  · cases h; exact .same rfl
  rename_i name hname
  have hstop : (stopActive env name s).choices = s.choices := by
    unfold stopActive
    split <;> rfl
  dsimp only at h
  split at h
  · cases h; exact .same hstop
  split at h
  · cases h; exact .same hstop
  split at h
  · cases h; exact .same hstop
  unfold createDisplay at h
  dsimp only at h
  obtain ⟨chooser, -, hs⟩ := Option.map_eq_some_iff.mp h
  refine .checked (k := Client.ofAddr from_) ?_ ?_
  · refine if_pos ⟨not_not.mp hlen, ?_⟩
    rw [hp]
    exact beq_iff_eq.mpr (not_not.mp hsid)
  · rw [← hstop, ← hs]
    split <;> rfl

theorem query_moves {type : Access.QueryType}
    (h : processRequestSocket b crypt env from_ (.query type names length) s = some s') :
    Moves s (.packet from_ (.query type names length) env) s' := by
  by_cases hl : length = arraysLength names
  · have hk : Event.client s (.packet from_ (.query type names length) env) =
        some (Client.ofAddr from_) := if_pos hl
    cases type with
    | indirect =>
      have h : indirectRespond b env from_ names length s = some s' := h
      unfold indirectRespond at h
      rw [if_neg (not_not.mpr hl)] at h
      obtain ⟨⟨hosts, localHostAsWell⟩, -, h⟩ := Option.bind_eq_some_iff.mp h
      have hf := sendForward_choices (Client.ofAddr from_) names hosts s
      dsimp only at h
      split at h
      · rcases allQueryRespond_choices h with ⟨-, hc⟩ | ⟨ht, -⟩
        · rw [hf] at hc
          exact .registered hk (hc ▸ Choices.registerIndirectChoice_registered ..)
        · exact absurd rfl ht
      · cases h
        exact .same hf
    | _ =>
      have h : directQueryRespond b env from_ names length _ s = some s' := h
      unfold directQueryRespond at h
      rw [if_neg (not_not.mpr hl)] at h
      rcases allQueryRespond_choices h with ⟨ht, -⟩ | ⟨-, hc⟩
      · cases ht
      · exact .checked hk hc
  · cases type with
    | indirect =>
      have h : indirectRespond b env from_ names length s = some s' := h
      unfold indirectRespond at h
      rw [if_pos hl] at h
      cases h
      exact .same rfl
    | _ =>
      have h : directQueryRespond b env from_ names length _ s = some s' := h
      unfold directQueryRespond at h
      rw [if_pos hl] at h
      cases h
      exact .same rfl

theorem step_moves (h : step b crypt e s = some s') : Moves s e s' := by
  cases e with
  | packet from_ pkt env =>
    cases pkt with
    | query type names length => exact query_moves h
    | forward addr port names length =>
      have h : forwardRespond b env from_ addr port names length s = some s' := h
      unfold forwardRespond at h
      split at h
      · cases h; exact .same rfl
      rename_i hl
      split at h
      · cases h; exact .same rfl
      rename_i client hclient
      rcases allQueryRespond_choices h with ⟨ht, -⟩ | ⟨-, hc⟩
      · cases ht
      · refine .checked (k := Client.ofAddr client) ?_ hc
        show (if _ then _ else _) = _
        rw [if_pos (not_not.mp hl), hclient]
        rfl
    | request r =>
      cases h
      exact .same (requestRespond_choices ..)
    | manage m => exact manage_moves h
    | keepAlive n sessionID length =>
      cases h
      unfold sendAlive
      split <;> exact .same rfl
  | choose k host env =>
    cases h
    exact .registered rfl (Choices.registerIndirectChoice_registered s.choices k env.malloc
      (s.now + s.conf.choiceTimeout) (some host))
  | loop now =>
    unfold step at h
    dsimp only at h
    split at h
    · cases h
      exact .disposed rfl rfl
    · cases h
  | rescan conf acc => cases h; exact .same rfl
  | network names localAddress => cases h; exact .same rfl
  | status id st => cases h; exact .same rfl
  | gone id => cases h; exact .same rfl
  | other name type =>
    unfold step at h
    dsimp only at h
    split at h
    · cases h
    · cases h; exact .same rfl

theorem Choices.Unique.step (h : s.choices.Unique) (hs : step b crypt e s = some s') :
    s'.choices.Unique := by
  cases step_moves hs with
  | same hc => exact hc ▸ h
  | registered _ hr => exact h.registered hr
  | checked _ hc => exact hc ▸ h.sublist checkIndirectChoice_sublist
  | disposed _ hc => exact hc ▸ h.sublist (List.dropWhile_sublist _)

theorem reachable_unique {conf : Conf} {access : Access} {now : Int} {t : Nat}
    {C : Daemon → Event → Prop}
    (h : Reaches (step b crypt) (· = initXdmcp conf access now t) C s) : s.choices.Unique :=
  h.invariant (I := fun s => s.choices.Unique)
    (fun s hs => by rw [show s = _ from hs]; exact List.nodup_nil)
    fun _ _ _ hi _ hs => hi.step hs

/-! ## A choice until it times out -/

/-- No other event of the client comes in between, and the choice has not timed out. -/
structure Waits (k : Client) (timeout : Int) (s : Daemon) (e : Event) : Prop where
  client : e.client s ≠ some k
  now : ∀ now, e = .loop now → now < timeout

theorem kept_step {c : ChoiceRec} (hc : c ∈ s.choices) (hw : Waits c.key c.timeout s e)
    (hs : step b crypt e s = some s') : c ∈ s'.choices := by
  cases step_moves hs with
  | same h => exact h ▸ hc
  | registered hk h => exact h.mem hc fun he => hw.client (he ▸ hk)
  | checked hk h => exact h ▸ Choices.mem_checkIndirectChoice hc fun he => hw.client (he ▸ hk)
  | disposed he h => exact h ▸ Choices.mem_disposeIndirectHosts hc (hw.now _ he)

/-- **The choice is there until the client comes back for it.** -/
theorem choice_kept {host : Bytes} (hu : s0.choices.Unique)
    (hs : step b crypt (.choose k host env) s0 = some s1)
    (hm : env.malloc .choice = true)
    (hrec : (env.malloc .choiceRec && env.malloc .choiceClient && env.malloc .choicePort) = true)
    (hr : Reaches (step b crypt) (· = s1) (Waits k (s0.now + s0.conf.choiceTimeout)) s) :
    s.choices.indirectChoice k = some host := by
  have hu1 := hu.step hs
  have hmem : ∃ c ∈ s1.choices, c.key = k ∧ c.choice = some host ∧
      c.timeout = s0.now + s0.conf.choiceTimeout := by
    cases hs
    exact Choices.registerIndirectChoice_mem hm hrec
  obtain ⟨c, hc, hk, hchoice, ht⟩ := hmem
  obtain ⟨hus, hcs⟩ := hr.invariant (I := fun s => s.choices.Unique ∧ c ∈ s.choices)
    (fun s hs => by rw [show s = s1 from hs]; exact ⟨hu1, hc⟩)
    fun s e s' hi hw hs => ⟨hi.1.step hs, kept_step hi.2 (by rw [hk, ht]; exact hw) hs⟩
  unfold Choices.indirectChoice
  rw [hus.find? hcs hk]
  exact hchoice

/-! ## The next indirect query -/

/-- The client has an entry that lets it choose. -/
def Access.LetsChoose (x : Access) (k : Client) : Prop :=
  ∃ e, x.matchAclEntry k.addr k.connectionType false = some (some e) ∧ e.a_notAllowed = false ∧
    e.a_useChooser = true

/-- The query went to the host, on whichever family its address is written, and nowhere else. -/
def Forwarded (a from_ : Sockaddr) (names : List Bytes) (s s' : Daemon) : Prop :=
  ∃ dest, netaddrAddress dest = netaddrAddress a ∧ s'.log =
    .sent dest (.forwardQuery (Client.ofAddr from_).addr (Client.ofAddr from_).port names) :: s.log

def AnsweredHere (from_ : Sockaddr) (s s' : Daemon) : Prop :=
  ∃ name status, s'.log = .sent from_ (.willing name status) :: s.log

def LocalHost (s : Daemon) (a : Sockaddr) : Prop :=
  s.access.localAddress = (hostAddress a).2 ∨ s.access.localAddress = netaddrAddress a

def Honoured (a from_ : Sockaddr) (names : List Bytes) (s s' : Daemon) : Prop :=
  Forwarded a from_ names s s' ∨ LocalHost s a ∧ AnsweredHere from_ s s'

/-- Every client that asks indirectly is acceptable. -/
theorem isWilling_indirect (env : Env) (k : Client) (s : Daemon) :
    ∃ status s', isWilling env k .indirect s = some (true, status, s') ∧ s'.log = s.log := by
  unfold isWilling Access.acceptableDisplayAddress
  refine ⟨_, _, rfl, ?_⟩
  split <;> rfl

theorem allQueryRespond_indirect (b : Build) (env : Env) (from_ : Sockaddr) (names : List Bytes)
    (s : Daemon) : ∃ s', allQueryRespond b env from_ names .indirect s = some s' ∧
      AnsweredHere from_ s s' := by
  unfold allQueryRespond
  dsimp only
  rw [if_pos rfl]
  obtain ⟨status, s', hw, hlog⟩ := isWilling_indirect env (Client.ofAddr from_) { s with
    choices := s.choices.registerIndirectChoice (Client.ofAddr from_) env.malloc
      (s.now + s.conf.choiceTimeout) none }
  rw [hw]
  exact ⟨_, rfl, chooseAuthentication b names, status, congrArg (_ :: ·) hlog⟩

/-- What the query does when a choice has been made. -/
theorem indirect_chosen (b : Build) (crypt : Crypt) (env : Env) {host : Bytes} (hl : length = arraysLength names)
    (hacc : s.access.LetsChoose (Client.ofAddr from_))
    (hc : s.choices.indirectChoice (Client.ofAddr from_) = some host) :
    ∃ s', step b crypt (.packet from_ (.query .indirect names length) env) s = some s' ∧
      ((s.access.localAddress = host ∧ AnsweredHere from_ s s') ∨
        s.access.localAddress ≠ host ∧
          s' = sendForward (Client.ofAddr from_) names ((Client.ofAddr from_).connectionType, host) s) := by
  obtain ⟨e, he, hna, huc⟩ := hacc
  have hstep : step b crypt (.packet from_ (.query .indirect names length) env) s =
      indirectRespond b env from_ names length s := rfl
  rw [hstep]
  unfold indirectRespond Access.forEachMatchingIndirectHost
  rw [if_neg (not_not.mpr hl)]
  dsimp only
  rw [he, hc]
  dsimp only [Option.bind_some]
  rw [hna, huc]
  by_cases hloc : s.access.localAddress = host
  · obtain ⟨s', hs', ha⟩ := allQueryRespond_indirect b env from_ names s
    exact ⟨s', by simpa [hloc] using hs', .inl ⟨hloc, ha⟩⟩
  · exact ⟨_, by simp [hloc], .inr ⟨hloc, rfl⟩⟩

theorem hostAddress_length (a : Sockaddr) :
    (hostAddress a).1 = FamilyInternet ∧ (hostAddress a).2.length = 4 ∨
      (hostAddress a).1 = FamilyInternet6 ∧ (hostAddress a).2.length = 16 := by
  cases a with
  | inet port addr => exact .inl ⟨rfl, addr.2⟩
  | inet6 port flowinfo addr scope => exact .inr ⟨rfl, addr.2⟩

theorem netaddrAddress_length (a : Sockaddr) : (netaddrAddress a).length ≤ 16 := by
  rw [← convertAddr_snd]
  rcases convertAddr_length a with ⟨-, h⟩ | ⟨-, h⟩ <;> omega

theorem hostAddress_length_le (a : Sockaddr) : (hostAddress a).2.length ≤ 16 := by
  rcases hostAddress_length a with ⟨-, h⟩ | ⟨-, h⟩ <;> omega

/-- The network address of a host is forwarded to it exactly when it is of the client's family. -/
theorem forwardAddr_host (port : Int) (type : UInt16) (a : Sockaddr) :
    (∃ dest, forwardAddr port type (hostAddress a).2 = some dest ∧
      netaddrAddress dest = netaddrAddress a ∧ (hostAddress a).1 = type) ∨
    forwardAddr port type (hostAddress a).2 = none ∧ (hostAddress a).1 ≠ type := by
  cases a with
  | inet p addr =>
    by_cases h4 : type = FamilyInternet
    · subst h4
      exact .inl ⟨.inet (htons port) addr, by simp [forwardAddr, hostAddress, addr.2], rfl, rfl⟩
    · refine .inr ⟨?_, Ne.symm h4⟩
      simp [forwardAddr, hostAddress, h4, addr.2]
  | inet6 p f addr sc =>
    by_cases h6 : type = FamilyInternet6
    · subst h6
      refine .inl ⟨.inet6 (htons port) (zeros 4) addr (zeros 4), ?_, rfl, rfl⟩
      have hne : FamilyInternet6 ≠ FamilyInternet := by decide
      simp [forwardAddr, hostAddress, hne, addr.2]
    · refine .inr ⟨?_, Ne.symm h6⟩
      simp [forwardAddr, hostAddress, h6, addr.2]

/-- A socket address is never forwarded to the host it is of. -/
theorem forwardAddr_bytes {port : Int} {type : UInt16} {a dest : Sockaddr}
    (h : forwardAddr port type a.bytes = some dest) : netaddrAddress dest ≠ netaddrAddress a := by
  cases a with
  | inet p addr =>
    have hlen : (Sockaddr.inet p addr).bytes.length = 16 := by
      simp [Sockaddr.bytes, p.2, addr.2]
    unfold forwardAddr at h
    split at h
    · rw [dif_neg (by omega)] at h
      cases h
    split at h
    · cases h
      -- the 16 bytes begin with the family, so they are no mapped address
      have hmap : IN6_IS_ADDR_V4MAPPED ⟨(Sockaddr.inet p addr).bytes, hlen⟩ = false := by
        unfold IN6_IS_ADDR_V4MAPPED Sockaddr.bytes v4Prefix
        simp
      unfold netaddrAddress
      dsimp only
      rw [hmap]
      intro he
      have hl := congrArg List.length he
      simp [hlen, addr.2] at hl
    · cases h
  | inet6 p f addr sc =>
    have hlen : (Sockaddr.inet6 p f addr sc).bytes.length = 28 := by
      simp [Sockaddr.bytes, p.2, f.2, addr.2, sc.2]
    unfold forwardAddr at h
    split at h
    · rw [dif_neg (by omega)] at h
      cases h
    split at h
    · rw [dif_neg (by omega)] at h
      cases h
    · cases h

/-- How the user names a host. -/
inductive Way where
  | list
  | direct
  deriving DecidableEq, Repr

/-- The message of the chooser about the host at `a`. -/
inductive Chooses (td : Display) (a : Sockaddr) : Way → ChooserMsg → Prop
  | list (inet_ntop : UInt16 → Bytes → Bytes) (hostNamedb : List HostName) (hid : Nat)
      {h : HostName} {m : ChooserMsg} (hfind : hostNamedb.find? (·.id == hid) = some h)
      (ha : (h.connectionType, h.hostaddr) = hostAddress a)
      (hm : chooseHost inet_ntop td hostNamedb hid = some m) : Chooses td a .list m
  | direct (name : Bytes) (ai : List Sockaddr) {m : ChooserMsg}
      (ha : (makeSockAddrs ai).head? = some a) (hm : directChooseHost td name ai = some m) :
      Chooses td a .direct m

/-- The entries of the list have the addresses of hosts that answered. -/
theorem addHostname_address {answers : List (Nat × Sockaddr)} {h : HostName}
    (hh : h ∈ answers.foldl (fun l r => addHostname r.1 r.2 l) []) :
    ∃ r ∈ answers, (h.connectionType, h.hostaddr) = hostAddress r.2 := by
  have hall (l : List HostName) (hl : h ∈ answers.foldl (fun l r => addHostname r.1 r.2 l) l) :
      h ∈ l ∨ ∃ r ∈ answers, (h.connectionType, h.hostaddr) = hostAddress r.2 := by
    clear hh
    induction answers generalizing l with
    | nil => exact .inl hl
    | cons r answers ih =>
      rcases ih _ hl with hl | ⟨r', hr', ha⟩
      · unfold addHostname at hl
        dsimp only at hl
        split at hl
        · exact .inl hl
        · rcases List.mem_append.mp hl with hl | hl
          · exact .inl hl
          · cases List.mem_singleton.mp hl
            exact .inr ⟨r, List.mem_cons_self, rfl⟩
      · exact .inr ⟨r', List.mem_cons_of_mem _ hr', ha⟩
  rcases hall [] hh with hl | hr
  · cases hl
  · exact hr

/-- The two messages say different things about the host. -/
theorem Chooses.event_eq {td : Display} {way : Way} {m : ChooserMsg} (hm : Chooses td a way m)
    (he : m.event env = some e) : e = .choose td.client
      (match way with | .list => (hostAddress a).2 | .direct => a.bytes) env := by
  cases hm with
  | list _ _ _ hfind ha hm =>
    unfold chooseHost at hm
    rw [hfind] at hm
    cases hm
    split at he
    · cases he
    · cases he
      exact congrArg (Event.choose td.client · env) (congrArg Prod.snd ha)
  | direct _ _ ha hm =>
    unfold directChooseHost at hm
    rw [ha] at hm
    cases hm
    split at he
    · cases he
    · cases he
      rfl

theorem not_answered_of_forward {dest : Sockaddr} {reply : Reply}
    (h : s'.log = .sent dest reply :: s.log) (hr : ∀ name status, reply ≠ .willing name status) :
    ¬ AnsweredHere from_ s s' := by
  rintro ⟨name, status, hl⟩
  have heq := (List.cons.inj (h.symm.trans hl)).1
  injection heq with _ heq
  exact hr name status heq

theorem sendForward_log (k : Client) (names : List Bytes) (dest : UInt16 × Bytes) (s : Daemon) :
    (∃ addr, forwardAddr s.conf.requestPort dest.1 dest.2 = some addr ∧
      (sendForward k names dest s).log = .sent addr (.forwardQuery k.addr k.port names) :: s.log) ∨
    forwardAddr s.conf.requestPort dest.1 dest.2 = none ∧ (sendForward k names dest s).log = s.log := by
  unfold sendForward
  cases forwardAddr s.conf.requestPort dest.1 dest.2 with
  | some addr => exact .inl ⟨addr, rfl, rfl⟩
  | none => exact .inr ⟨rfl, rfl⟩

/-- A choice that is not the local host is honoured exactly when `sendForward` makes the address
of the host of it. -/
theorem honoured_sendForward {host : Bytes} {type : UInt16} :
    Honoured a from_ names s (sendForward (Client.ofAddr from_) names (type, host) s) ↔
      ∃ dest, forwardAddr s.conf.requestPort type host = some dest ∧
        netaddrAddress dest = netaddrAddress a := by
  rcases sendForward_log (Client.ofAddr from_) names (type, host) s with
    ⟨addr, haddr, hlog⟩ | ⟨hnone, hlog⟩
  · constructor
    · rintro (⟨dest, hd, hl⟩ | ⟨-, ha⟩)
      · have heq := (List.cons.inj (hlog.symm.trans hl)).1
        injection heq with heq _
        exact ⟨addr, haddr, heq ▸ hd⟩
      · exact absurd ha (not_answered_of_forward hlog nofun)
    · rintro ⟨dest, hd, ha⟩
      cases haddr.symm.trans hd
      exact .inl ⟨addr, ha, hlog⟩
  · have hne (e : Entry) (hl : (sendForward (Client.ofAddr from_) names (type, host) s).log =
        e :: s.log) : False := by
      have hlen := congrArg List.length (hlog.symm.trans hl)
      simp at hlen
    constructor
    · rintro (⟨dest, -, hl⟩ | ⟨-, name, status, hl⟩)
      · exact (hne _ hl).elim
      · exact (hne _ hl).elim
    · rintro ⟨dest, hd, -⟩
      rw [hnone] at hd
      cases hd

theorem bytes_length (a : Sockaddr) : a.bytes.length = a.len := by
  cases a with
  | inet port addr => simp [Sockaddr.bytes, Sockaddr.len, port.2, addr.2]
  | inet6 port flowinfo addr scope =>
    simp [Sockaddr.bytes, Sockaddr.len, port.2, flowinfo.2, addr.2, scope.2]

/-- No host has its socket address as network address. -/
theorem bytes_ne (a : Sockaddr) : a.bytes ≠ (hostAddress a).2 ∧ a.bytes ≠ netaddrAddress a := by
  have h1 := bytes_length a
  cases a with
  | inet port addr =>
    refine ⟨fun h => ?_, fun h => ?_⟩ <;>
    · have hl := congrArg List.length h
      simp [h1, Sockaddr.len, hostAddress, netaddrAddress, addr.2] at hl
  | inet6 port flowinfo addr scope =>
    have h2 := netaddrAddress_length (.inet6 port flowinfo addr scope)
    have h3 := hostAddress_length_le (.inet6 port flowinfo addr scope)
    refine ⟨fun h => ?_, fun h => ?_⟩
    · rw [← h, h1] at h3
      simp [Sockaddr.len] at h3
    · rw [← h, h1] at h2
      simp [Sockaddr.len] at h2

/-- **A user's host choice** is honoured by the next indirect query before it times out exactly
when the host was selected from the list and is the local host or of the client's family. -/
theorem hostChoice_iff {conf : Conf} {access : Access} {now : Int} {t : Nat} (env' : Env)
    (names : List Bytes) {td : Display} {way : Way} {m : ChooserMsg} (hm : Chooses td a way m)
    (he : m.event env = some e) (hk : td.client = Client.ofAddr from_)
    (h0 : Reaches (step b crypt) (· = initXdmcp conf access now t) (fun _ _ => True) s0)
    (hs : step b crypt e s0 = some s1) (hchoice : env.malloc .choice = true)
    (hrec : (env.malloc .choiceRec && env.malloc .choiceClient && env.malloc .choicePort) = true)
    (hr : Reaches (step b crypt) (· = s1) (Waits td.client (s0.now + s0.conf.choiceTimeout)) s)
    (hacc : s.access.LetsChoose td.client) (hl : length = arraysLength names) :
    ∃ s', step b crypt (.packet from_ (.query .indirect names length) env') s = some s' ∧
      (Honoured a from_ names s s' ↔ way = .list ∧
        (s.access.localAddress = (hostAddress a).2 ∨ (hostAddress a).1 = td.client.connectionType)) := by
  cases hm.event_eq he
  have hkept := choice_kept (reachable_unique h0) hs hchoice hrec hr
  rw [hk] at hkept hacc ⊢
  obtain ⟨s', hs', hcase⟩ := indirect_chosen b crypt env' hl hacc hkept
  refine ⟨s', hs', ?_⟩
  cases way with
  | list =>
    rcases hcase with ⟨hloc, hans⟩ | ⟨hloc, rfl⟩
    · exact iff_of_true (.inr ⟨.inl hloc, hans⟩) ⟨rfl, .inl hloc⟩
    · rw [honoured_sendForward]
      rcases forwardAddr_host s.conf.requestPort (Client.ofAddr from_).connectionType a with
        ⟨dest, hd, ha, hf⟩ | ⟨hd, hf⟩
      · exact iff_of_true ⟨dest, hd, ha⟩ ⟨rfl, .inr hf⟩
      · refine iff_of_false ?_ ?_
        · rintro ⟨dest, hd', -⟩
          rw [hd] at hd'
          cases hd'
        · rintro ⟨-, h | h⟩
          · exact hloc h
          · exact hf h
  | direct =>
    refine iff_of_false ?_ (fun h => (nomatch h.1))
    rcases hcase with ⟨hloc, hans⟩ | ⟨hloc, rfl⟩
    · rintro (⟨dest, -, hlog⟩ | ⟨h | h, -⟩)
      · exact not_answered_of_forward hlog nofun hans
      · exact (bytes_ne a).1 (hloc.symm.trans h)
      · exact (bytes_ne a).2 (hloc.symm.trans h)
    · rw [honoured_sendForward]
      rintro ⟨dest, hd, ha⟩
      exact forwardAddr_bytes hd ha

namespace Sample

/-- The client may choose any host. -/
def chooserAccess : Access :=
  { access with acc :=
      ⟨[.address FamilyInternet [192, 168, 0, 2], .broadcast], [], [], [⟨0, 1, 1, 1, false, true⟩]⟩ }

def host : Sockaddr := .inet (htons 177) ⟨[10, 0, 0, 1], rfl⟩

/-- The display of the client, which runs a chooser. -/
def chooserDisplay : Display :=
  { Display.other 0 (ascii "client:0") ⟨.dForeign, .dTransient, .dFromXDMCP⟩ with
    client := Client.ofAddr client
    useChooser := true }

theorem letsChoose : chooserAccess.LetsChoose (Client.ofAddr client) := ⟨_, rfl, rfl, rfl⟩

end Sample

/-- A host that is entered by name is not honoured. -/
theorem hostChoice_lost : ∃ m e s1 s', Chooses Sample.chooserDisplay Sample.host .direct m ∧
    m.event {} = some e ∧
    step Sample.build Sample.cipher e (initXdmcp Sample.conf Sample.chooserAccess 0 0) = some s1 ∧
    step Sample.build Sample.cipher (.packet Sample.client (.query .indirect [] 1) {}) s1 = some s' ∧
    ¬ Honoured Sample.host Sample.client [] s1 s' := by
  have hm : Chooses Sample.chooserDisplay Sample.host .direct
      (.chooseHost (Client.ofAddr Sample.client) Sample.host.bytes) :=
    .direct [] [Sample.host] rfl rfl
  refine ⟨_, _, _, _, hm, rfl, rfl, rfl, ?_⟩
  rintro (⟨dest, -, hl⟩ | ⟨h | h, -⟩)
  · cases show ([] : List Entry) = _ :: [] from hl
  · exact absurd h (by decide)
  · exact absurd h (by decide)

/-- A host from the list is honoured. -/
theorem hostChoice_list : ∃ s1 s', step Sample.build Sample.cipher
      (.choose (Client.ofAddr Sample.client) [10, 0, 0, 1] {})
      (initXdmcp Sample.conf Sample.chooserAccess 0 0) = some s1 ∧
    step Sample.build Sample.cipher (.packet Sample.client (.query .indirect [] 1) {}) s1 = some s' ∧
    Honoured Sample.host Sample.client [] s1 s' := by
  have hm : Chooses Sample.chooserDisplay Sample.host .list
      (.chooseHost (Client.ofAddr Sample.client) [10, 0, 0, 1]) :=
    .list (fun _ _ => []) [⟨0, FamilyInternet, [10, 0, 0, 1]⟩] 0 rfl rfl rfl
  have h0 : Reaches (step Sample.build Sample.cipher)
      (· = initXdmcp Sample.conf Sample.chooserAccess 0 0) (fun _ _ => True)
      (initXdmcp Sample.conf Sample.chooserAccess 0 0) := ⟨[], .start rfl⟩
  have hevent : ChooserMsg.event {} (.chooseHost (Client.ofAddr Sample.client) [10, 0, 0, 1]) =
      some _ := rfl
  obtain ⟨s', hs', hiff⟩ := hostChoice_iff {} [] hm hevent rfl h0 rfl rfl rfl ⟨[], .start rfl⟩
    Sample.letsChoose rfl
  exact ⟨_, s', rfl, hs', hiff.mpr ⟨rfl, .inr rfl⟩⟩

end Kdm.Xdmcp
