import Kdm.Xdmcp.Chooser

/-!
# The host list of the chooser

`choose.c` keeps the hosts that answer its pings in `hostNamedb` and tells the greeter about every
change of the list.

* `addHostname`, `receivePacket` — what an answer does to the list, and the messages for it.
* `step` — the loop of `doChoose`: answers, refreshes and the timeouts of the pings.
* `shown` — the list of the greeter, from the messages.
* `Follows` — the list is what the network answered, and the greeter has the same list.

Principal result: `follows_of_calm`.
-/

namespace Kdm.Xdmcp.Hosts

open Runs

/-- The host that an address belongs to, as the list compares it. -/
abbrev HostKey := UInt16 × Bytes

/-- `HostName`; `name` is its address in memory. -/
structure HostName where
  name : Nat
  willing : Bool
  alive : Bool
  hostname : Bytes
  status : Bytes
  connectionType : UInt16
  hostaddr : Bytes
  deriving DecidableEq

def HostName.key (h : HostName) : HostKey := (h.connectionType, h.hostaddr)

/-- `(int)(long)name`, just an id. -/
def idOf (name : Nat) : BitVec 32 := BitVec.ofNat 32 name

def HostName.id (h : HostName) : BitVec 32 := idOf h.name

/-- A host as the greeter is told about it. -/
structure View where
  id : BitVec 32
  hostname : Bytes
  status : Bytes
  will : Bool
  deriving DecidableEq

def HostName.view (h : HostName) : View := ⟨h.id, h.hostname, h.status, h.willing⟩

inductive Msg where
  | addHost (v : View)
  | changeHost (v : View)
  | removeHost (id : BitVec 32)

/-! ## Answers -/

/-- What `addHostname` gets from outside: the name that `gethostbyaddr` finds and the memory for a
new host. -/
structure Lookup where
  hostent : Option Bytes
  malloc : Option Nat

def addHostname (x : Lookup) (hostname status : Bytes) (addr : Sockaddr) (will : Bool)
    (hostNamedb : List HostName) : List HostName × List Msg :=
  let hostAddr := hostAddress addr
  match Keyed.get HostName.key hostNamedb hostAddr with
  | some name =>
    if status = name.status then (hostNamedb, [])
    else
      let name' := { name with alive := true, willing := will, status }
      (Keyed.update HostName.key hostNamedb hostAddr fun _ => name', [.changeHost name'.view])
  | none =>
    match x.malloc with
    | some a =>
      let hostname := if hostname = [] then hostname else x.hostent.getD hostname
      let name : HostName := ⟨a, will, true, hostname, status, hostAddr.1, hostAddr.2⟩
      (hostNamedb ++ [name], [.addHost name.view])
    | none => (hostNamedb, [])

/-- What `receivePacket` reads from a datagram. -/
inductive Packet where
  | willing (length : UInt16) (authenticationName hostname status : Bytes)
  | unwilling (length : UInt16) (hostname status : Bytes)
  | other

/-- The answer that a packet carries if its length is right: host name, status and willingness. -/
def Packet.answer : Packet → Option (Bytes × Bytes × Bool)
  | .willing length authenticationName hostname status =>
    if length.toNat = 6 + authenticationName.length + hostname.length + status.length then
      some (hostname, status, true)
    else none
  | .unwilling length hostname status =>
    if length.toNat = 4 + hostname.length + status.length then some (hostname, status, false)
    else none
  | .other => none

def receivePacket (x : Lookup) (p : Packet) (addr : Sockaddr) (hostNamedb : List HostName) :
    List HostName × List Msg :=
  match p.answer with
  | some (hostname, status, will) => addHostname x hostname status addr will hostNamedb
  | none => (hostNamedb, [])

/-! ## The loop -/

def PING_TRIES : Nat := 3

/-- An answer, for the record. -/
structure Answer where
  host : HostKey
  will : Bool
  status : Bytes

/-- `sent` are the messages so far, `answers` the answers since the last refresh, the newest
first, and `swept` tells that the ping cycle was completed. -/
structure State where
  hostNamedb : List HostName
  pingTry : Nat
  sent : List Msg
  answers : List Answer
  swept : Bool

/-- `refresh` is `reping`: the start, `G_Ch_Refresh` and `G_Ch_RegisterHost`; `timeout` is
`nextPing` having passed. -/
inductive Event where
  | refresh
  | timeout
  | packet (x : Lookup) (p : Packet) (addr : Sockaddr)

/-- What goes into the record of the answers. -/
def noted (p : Packet) (addr : Sockaddr) (answers : List Answer) : List Answer :=
  match p.answer with
  | some (_, status, will) => ⟨hostAddress addr, will, status⟩ :: answers
  | none => answers

def step : Event → State → Option State
  | .refresh, s =>
    some { s with
      hostNamedb := s.hostNamedb.map fun h => { h with alive := false }
      pingTry := 1
      answers := []
      swept := false }
  | .timeout, s =>
    if s.pingTry < PING_TRIES then some { s with pingTry := s.pingTry + 1 }
    else
      let dead := s.hostNamedb.filter fun h => !h.alive
      some { s with
        hostNamedb := s.hostNamedb.filter (·.alive)
        sent := s.sent ++ dead.map fun h => .removeHost h.id
        swept := true }
  | .packet x p addr, s =>
    let r := receivePacket x p addr s.hostNamedb
    some { s with
      hostNamedb := r.1
      sent := s.sent ++ r.2
      answers := noted p addr s.answers }

def Start (s : State) : Prop :=
  s.hostNamedb = [] ∧ s.sent = [] ∧ s.answers = [] ∧ s.swept = false

/-- Memory is not handed out twice. -/
def Allowed (s : State) : Event → Prop
  | .packet x _ _ => ∀ a, x.malloc = some a → a ∉ s.hostNamedb.map HostName.name
  | _ => True

/-! ## The property -/

/-- One message on the list of the greeter. -/
def Msg.apply (l : List View) : Msg → List View
  | .addHost v => l ++ [v]
  | .changeHost v => Keyed.update View.id l v.id fun _ => v
  | .removeHost id => Keyed.erase View.id l id

def shown (sent : List Msg) : List View := sent.foldl Msg.apply []

/-- The newest answer of a host. -/
def latest (k : HostKey) : List Answer → Option (Bool × Bytes)
  | [] => none
  | a :: l => if a.host = k then some (a.will, a.status) else latest k l

/-- **The property**: after a completed ping cycle the list has exactly the hosts that answered,
with their newest answers, and the greeter has the same list. -/
structure Follows (s : State) : Prop where
  once : (s.hostNamedb.map HostName.key).Nodup
  hosts : s.swept = true → ∀ k, (∃ h ∈ s.hostNamedb, h.key = k) ↔ ∃ v, latest k s.answers = some v
  newest : s.swept = true → ∀ h ∈ s.hostNamedb, latest h.key s.answers = some (h.willing, h.status)
  greeter : shown s.sent = s.hostNamedb.map HostName.view

/-- An answer that has the status the list has for the host changes nothing, so it must not be
the first one since the refresh nor change the willingness; a new host needs memory, and an id of
its own. -/
def Calm (s : State) : Event → Prop
  | .packet x p addr => ∀ hostname status will, p.answer = some (hostname, status, will) →
    match Keyed.get HostName.key s.hostNamedb (hostAddress addr) with
    | some h => h.status = status → h.alive = true ∧ h.willing = will
    | none => ∃ a, x.malloc = some a ∧ idOf a ∉ s.hostNamedb.map HostName.id
  | _ => True

/-! ## The list of the greeter -/

theorem shown_append (sent more : List Msg) :
    shown (sent ++ more) = more.foldl Msg.apply (shown sent) := List.foldl_append

/-- Removing the dead hosts one by one. -/
theorem foldl_removeHost (dead : List HostName) (l : List View) :
    (dead.map fun h => Msg.removeHost h.id).foldl Msg.apply l =
      l.filter fun v => decide (v.id ∉ dead.map HostName.id) := by
  induction dead generalizing l with
  | nil => simp
  | cons h dead ih =>
    rw [List.map_cons, List.foldl_cons, ih]
    unfold Msg.apply Keyed.erase
    rw [List.filter_filter]
    refine List.filter_congr fun v _ => ?_
    simp only [List.map_cons, List.mem_cons, not_or, Bool.decide_and, Bool.and_comm]

/-- Hosts of a list with distinct ids are told apart by them. -/
theorem id_mem_map_iff {l dead : List HostName} (hl : (l.map HostName.id).Nodup)
    (hd : dead ⊆ l) {h : HostName} (hh : h ∈ l) : h.id ∈ dead.map HostName.id ↔ h ∈ dead := by
  constructor
  · intro hm
    obtain ⟨d, hdm, hid⟩ := List.mem_map.mp hm
    have heq : d = h := List.inj_on_of_nodup_map hl (hd hdm) hh hid
    exact heq ▸ hdm
  · exact List.mem_map_of_mem

theorem removeHost_dead {l : List HostName} (hl : (l.map HostName.id).Nodup) :
    ((l.filter fun h => !h.alive).map fun h => Msg.removeHost h.id).foldl Msg.apply
      (l.map HostName.view) = (l.filter (·.alive)).map HostName.view := by
  rw [foldl_removeHost, List.filter_map]
  congr 1
  refine List.filter_congr fun h hh => ?_
  have hm : h.id ∈ (l.filter fun h => !h.alive).map HostName.id ↔ h ∈ l.filter fun h => !h.alive :=
    id_mem_map_iff hl (fun _ h => (List.mem_filter.mp h).1) hh
  rw [Bool.eq_iff_iff, Function.comp, decide_eq_true_eq]
  show ¬ h.id ∈ _ ↔ h.alive = true
  rw [hm]
  simp [hh]

/-- A change of a host of the list is a change of the greeter's list. -/
theorem changeHost_update {l : List HostName} {h h' : HostName} (hkeys : (l.map HostName.key).Nodup)
    (hids : (l.map HostName.id).Nodup) (hh : h ∈ l) (hid : h'.id = h.id) :
    Msg.apply (l.map HostName.view) (.changeHost h'.view) =
      (Keyed.update HostName.key l h.key fun _ => h').map HostName.view := by
  show Keyed.update View.id (l.map HostName.view) h'.view.id (fun _ => h'.view) = _
  unfold Keyed.update
  rw [List.map_map, List.map_map]
  refine List.map_congr_left fun a ha => ?_
  have hiff : a.view.id = h'.view.id ↔ a.key = h.key := by
    constructor
    · intro hv
      have heq : a = h := List.inj_on_of_nodup_map hids ha hh (Eq.trans hv hid)
      rw [heq]
    · intro hk
      have heq : a = h := List.inj_on_of_nodup_map hkeys ha hh hk
      rw [heq]
      exact hid.symm
  by_cases hk : a.key = h.key
  · simp [hk, hiff]
  · simp [hk, hiff]

/-- A replacement that keeps `g` of the record. -/
theorem map_update {β : Type} {g : HostName → β} {l : List HostName} {h h' : HostName}
    (hkeys : (l.map HostName.key).Nodup) (hh : h ∈ l) (hg : g h' = g h) :
    (Keyed.update HostName.key l h.key fun _ => h').map g = l.map g := by
  unfold Keyed.update
  rw [List.map_map]
  refine List.map_congr_left fun a ha => ?_
  show g (if a.key = h.key then h' else a) = g a
  split
  · rename_i hk
    have heq : a = h := List.inj_on_of_nodup_map hkeys ha hh hk
    rw [heq, hg]
  · rfl

/-! ## The invariant -/

/-- The hosts that are alive are those that answered, with their newest answers. -/
structure Inv (s : State) : Prop where
  keys : (s.hostNamedb.map HostName.key).Nodup
  ids : (s.hostNamedb.map HostName.id).Nodup
  seen : ∀ h ∈ s.hostNamedb, h.alive = true → latest h.key s.answers = some (h.willing, h.status)
  answered : ∀ k v, latest k s.answers = some v → ∃ h ∈ s.hostNamedb, h.key = k ∧ h.alive = true
  swept : s.swept = true → ∀ h ∈ s.hostNamedb, h.alive = true
  greeter : shown s.sent = s.hostNamedb.map HostName.view

variable {s s' : State} {x : Lookup} {p : Packet} {addr : Sockaddr} {hostname status : Bytes}
  {will : Bool}

theorem Inv.refresh (h : Inv s) :
    Inv { s with
      hostNamedb := s.hostNamedb.map fun h => { h with alive := false }
      pingTry := 1
      answers := []
      swept := false } where
  keys := by
    show ((s.hostNamedb.map _).map HostName.key).Nodup
    rw [List.map_map]
    exact h.keys
  ids := by
    show ((s.hostNamedb.map _).map HostName.id).Nodup
    rw [List.map_map]
    exact h.ids
  seen a ha halive := by
    obtain ⟨b, _, rfl⟩ := List.mem_map.mp ha
    cases halive
  answered k v hv := by cases hv
  swept hs := by cases hs
  greeter := by
    rw [h.greeter, List.map_map]
    rfl

theorem Inv.sweep (h : Inv s) :
    Inv { s with
      hostNamedb := s.hostNamedb.filter (·.alive)
      sent := s.sent ++ (s.hostNamedb.filter fun h => !h.alive).map fun h => .removeHost h.id
      swept := true } where
  keys := h.keys.sublist (List.filter_sublist.map _)
  ids := h.ids.sublist (List.filter_sublist.map _)
  seen a ha := h.seen a (List.mem_filter.mp ha).1
  answered k v hv := by
    obtain ⟨a, ha, hk, halive⟩ := h.answered k v hv
    exact ⟨a, List.mem_filter.mpr ⟨ha, halive⟩, hk, halive⟩
  swept _ a ha := (List.mem_filter.mp ha).2
  greeter := by
    rw [shown_append, h.greeter]
    exact removeHost_dead h.ids

/-- A host is added, or replaced by one that is alive, and the greeter is told. -/
theorem Inv.store {l : List HostName} {n : HostName} {m : Msg} (h : Inv s) (halive : n.alive = true)
    (hkeys : (l.map HostName.key).Nodup) (hids : (l.map HostName.id).Nodup)
    (hl : ∀ a ∈ l, a = n ∨ a ∈ s.hostNamedb ∧ a.key ≠ n.key) (hn : n ∈ l)
    (hk : ∀ a ∈ s.hostNamedb, a.key ≠ n.key → a ∈ l)
    (hm : Msg.apply (s.hostNamedb.map HostName.view) m = l.map HostName.view) :
    Inv { s with
      hostNamedb := l
      sent := s.sent ++ [m]
      answers := ⟨n.key, n.willing, n.status⟩ :: s.answers } where
  keys := hkeys
  ids := hids
  seen a ha hal := by
    rcases hl a ha with rfl | ⟨ha, hne⟩
    · simp [latest]
    · simp only [latest, if_neg (Ne.symm hne)]
      exact h.seen a ha hal
  answered k v hv := by
    by_cases hkn : n.key = k
    · exact ⟨n, hn, hkn, halive⟩
    · simp only [latest, if_neg hkn] at hv
      obtain ⟨a, ha, rfl, hal⟩ := h.answered k v hv
      exact ⟨a, hk a ha (Ne.symm hkn), rfl, hal⟩
  swept hs a ha := by
    rcases hl a ha with rfl | ⟨ha, _⟩
    · exact halive
    · exact h.swept hs a ha
  greeter := by
    rw [shown_append, h.greeter]
    exact hm

/-- An answer that says what the list says. -/
theorem Inv.repeated {n : HostName} (h : Inv s) (hn : n ∈ s.hostNamedb) (halive : n.alive = true) :
    Inv { s with
      sent := s.sent ++ []
      answers := ⟨n.key, n.willing, n.status⟩ :: s.answers } where
  keys := h.keys
  ids := h.ids
  seen a ha hal := by
    by_cases hk : n.key = a.key
    · have heq : n = a := List.inj_on_of_nodup_map h.keys hn ha hk
      simp [latest, heq]
    · simp only [latest, if_neg hk]
      exact h.seen a ha hal
  answered k v hv := by
    by_cases hk : n.key = k
    · exact ⟨n, hn, hk, halive⟩
    · simp only [latest, if_neg hk] at hv
      exact h.answered k v hv
  swept := h.swept
  greeter := by rw [List.append_nil]; exact h.greeter

theorem Inv.packet (h : Inv s) (hcalm : Calm s (.packet x p addr)) :
    Inv { s with
      hostNamedb := (receivePacket x p addr s.hostNamedb).1
      sent := s.sent ++ (receivePacket x p addr s.hostNamedb).2
      answers := noted p addr s.answers } := by
  unfold receivePacket noted
  cases hp : p.answer with
  | none =>
    dsimp only
    rw [List.append_nil]
    exact h
  | some ans =>
    obtain ⟨hostname, status, will⟩ := ans
    have hc := hcalm hostname status will hp
    dsimp only
    unfold addHostname
    dsimp only
    cases hg : Keyed.get HostName.key s.hostNamedb (hostAddress addr) with
    | some n =>
      rw [hg] at hc
      have hmem := Keyed.mem_of_get hg
      have hkey : n.key = hostAddress addr := Keyed.key_of_get hg
      dsimp only at hc ⊢
      rw [← hkey]
      by_cases hst : status = n.status
      · obtain ⟨halive, hwill⟩ := hc hst.symm
        rw [if_pos hst, hst, ← hwill]
        exact h.repeated hmem halive
      · rw [if_neg hst]
        let n' : HostName := { n with alive := true, willing := will, status }
        refine h.store (n := n') rfl ?_ ?_ (fun a ha => ?_) ?_ (fun a ha hne => ?_) ?_
        · rw [map_update h.keys hmem (rfl : n'.key = n.key)]
          exact h.keys
        · rw [map_update h.keys hmem (rfl : n'.id = n.id)]
          exact h.ids
        · obtain ⟨b, hb, rfl⟩ := List.mem_map.mp ha
          split
          · exact .inl rfl
          · rename_i hne
            exact .inr ⟨hb, hne⟩
        · exact List.mem_map.mpr ⟨n, hmem, if_pos rfl⟩
        · exact List.mem_map.mpr ⟨a, ha, if_neg hne⟩
        · exact changeHost_update h.keys h.ids hmem rfl
    | none =>
      rw [hg] at hc
      obtain ⟨a, ha, hid⟩ := hc
      rw [ha]
      have hno : ∀ b ∈ s.hostNamedb, b.key ≠ hostAddress addr := fun b hb => by
        simpa using List.find?_eq_none.mp hg b hb
      let n : HostName := ⟨a, will, true, if hostname = [] then hostname else x.hostent.getD hostname,
        status, (hostAddress addr).1, (hostAddress addr).2⟩
      refine h.store (n := n) rfl ?_ ?_ (fun b hb => ?_) (by simp [n]) (fun b hb _ => ?_) ?_
      · rw [List.map_append]
        refine List.nodup_append.mpr ⟨h.keys, List.nodup_singleton _, fun k hk k' hk' => ?_⟩
        obtain ⟨b, hb, rfl⟩ := List.mem_map.mp hk
        cases List.mem_singleton.mp hk'
        exact hno b hb
      · rw [List.map_append]
        refine List.nodup_append.mpr ⟨h.ids, List.nodup_singleton _, fun i hi i' hi' => ?_⟩
        cases List.mem_singleton.mp hi'
        intro heq
        rw [heq] at hi
        exact hid hi
      · rcases List.mem_append.mp hb with hb | hb
        · exact .inr ⟨hb, hno b hb⟩
        · exact .inl (List.mem_singleton.mp hb)
      · exact List.mem_append_left _ hb
      · rw [List.map_append]
        rfl

theorem Inv.step (h : Inv s) {e : Event} (hc : Calm s e) (hs : step e s = some s') : Inv s' := by
  cases e with
  | refresh => cases hs; exact h.refresh
  | timeout =>
    simp only [Hosts.step] at hs
    split at hs
    · cases hs
      exact { h with }
    · cases hs
      exact h.sweep
  | packet x p addr => cases hs; exact h.packet hc

theorem Inv.follows (h : Inv s) : Follows s where
  once := h.keys
  hosts hs k := by
    constructor
    · rintro ⟨a, ha, rfl⟩
      exact ⟨_, h.seen a ha (h.swept hs a ha)⟩
    · rintro ⟨v, hv⟩
      obtain ⟨a, ha, hk, _⟩ := h.answered k v hv
      exact ⟨a, ha, hk⟩
  newest hs a ha := h.seen a ha (h.swept hs a ha)
  greeter := h.greeter

/-- **The host list**: it follows the network in every run in which no answer repeats the status
that the list has for its host, unless the host has answered since the refresh and is still as
willing, and in which every new host gets a record and an id of its own. -/
theorem follows_of_calm (h : Reaches step Start (fun s e => Allowed s e ∧ Calm s e) s) :
    Follows s := by
  refine Inv.follows (h.invariant (I := Inv) (fun s h0 => ?_) fun _ _ _ hi hc hs => hi.step hc.2 hs)
  obtain ⟨hdb, hsent, hans, hsw⟩ := h0
  constructor
  · rw [hdb]; exact List.nodup_nil
  · rw [hdb]; exact List.nodup_nil
  · rw [hdb]; exact fun a ha => by cases ha
  · rw [hans]; exact fun k v hv => by cases hv
  · rw [hsw]; exact fun hs => by cases hs
  · rw [hsent, hdb]; rfl

namespace Sample

theorem port_length : ([0, 177] : Bytes).length = 2 := rfl

theorem addr_length : ([10, 0, 0, 1] : Bytes).length = 4 := rfl

def host : Sockaddr := .inet ⟨[0, 177], port_length⟩ ⟨[10, 0, 0, 1], addr_length⟩

/-- An answer with an empty host name and the status `ok`. -/
def answer (a : Nat) : Event := .packet ⟨none, some a⟩ (.willing 8 [] [] [111, 107]) host

/-- A ping cycle in which the host answers. -/
def cycle : List Event := [.refresh, answer 4096, .timeout, .timeout, .timeout]

/-- An event for an empty list with memory for a host. -/
def first (s : State) : Event → Bool
  | .packet x _ _ => s.hostNamedb.isEmpty && x.malloc.isSome
  | _ => true

/-- An event with new memory. -/
def allowed (s : State) : Event → Bool
  | .packet x _ _ => x.malloc.all fun a => !(s.hostNamedb.map HostName.name).contains a
  | _ => true

end Sample

theorem calm_of_first (s : State) (e : Event) (h : Sample.first s e = true) :
    Allowed s e ∧ Calm s e := by
  cases e with
  | packet x p addr =>
    obtain ⟨hdb, hmem⟩ := Bool.and_eq_true_iff.mp h
    obtain ⟨a, ha⟩ := Option.isSome_iff_exists.mp hmem
    have hnil : s.hostNamedb = [] := List.isEmpty_iff.mp hdb
    unfold Allowed Calm
    rw [hnil]
    exact ⟨fun _ _ => List.not_mem_nil, fun _ _ _ _ => ⟨a, ha, List.not_mem_nil⟩⟩
  | refresh => exact ⟨trivial, trivial⟩
  | timeout => exact ⟨trivial, trivial⟩

theorem allowed_of_test (s : State) (e : Event) (h : Sample.allowed s e = true) : Allowed s e := by
  cases e with
  | packet x p addr =>
    intro a ha
    simpa [Sample.allowed, ha] using h
  | refresh => trivial
  | timeout => trivial

theorem reaches_exec {C : State → Event → Prop} {ok : State → Event → Bool} {es : List Event}
    (hok : ∀ s e, ok s e = true → C s e)
    (h : exec step ok es ⟨[], 0, [], [], false⟩ = some s) : Reaches step Start C s :=
  Reaches.exec hok ⟨[], .start ⟨rfl, rfl, rfl, rfl⟩⟩ h

theorem follows_of_cycle : ∃ s : State, s.swept = true ∧ s.hostNamedb.length = 1 ∧ Follows s := by
  obtain ⟨s, hs⟩ : ∃ s, exec step Sample.first Sample.cycle ⟨[], 0, [], [], false⟩ = some s :=
    ⟨_, rfl⟩
  refine ⟨s, ?_, ?_, follows_of_calm (reaches_exec calm_of_first hs)⟩
  · cases hs; rfl
  · cases hs; rfl

/-- A host that gives the same answer in two ping cycles is taken from the list in the second. -/
theorem not_follows : ¬ ∀ s, Reaches step Start Allowed s → Follows s := by
  intro hall
  obtain ⟨s, hs⟩ : ∃ s, exec step Sample.allowed
      (Sample.cycle ++ [.refresh, Sample.answer 8192, .timeout, .timeout, .timeout])
      ⟨[], 0, [], [], false⟩ = some s := ⟨_, rfl⟩
  have hf := hall s (reaches_exec allowed_of_test hs)
  cases hs
  obtain ⟨h, hh, _⟩ := (hf.hosts rfl (0, [10, 0, 0, 1])).mpr ⟨_, rfl⟩
  cases hh

end Kdm.Xdmcp.Hosts
