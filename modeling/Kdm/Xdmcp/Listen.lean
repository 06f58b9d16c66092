import Kdm.Lib.Keyed
import Kdm.Xdmcp.Access
import Mathlib.Data.List.Nodup

/-!
# Listening sockets

`updateListenSockets` of `socket.c`: the sockets that are not configured any more are closed after
those that are new were opened, and the same goes for the multicast groups of a socket.

* `Sys` — what the system does with sockets: which ones it has, and which ones stand in each other's
  way.  Its answers stay the same.
* `Listen` — what `forEachListenAddr` tells about an interface: its address, and its groups.
* `Converged` — the sockets and the groups are those of the configuration.
* `Steady` — when they come to be that.

A socket is told from the others by its address and its port.  Memory does not run out here.
Principal result: `settled_iff`.
-/

namespace Kdm.Xdmcp.Listeners

abbrev Addr := Bytes

def in6addr_any : Addr := List.replicate 16 0
def INADDR_ANY : Addr := List.replicate 4 0

/-- `createSocklistEntry` knows the type of the address. -/
def Known (addr : Addr) : Prop := addr.length = 4 ∨ addr.length = 16

instance known_decidable (addr : Addr) : Decidable (Known addr) :=
  inferInstanceAs (Decidable (_ ∨ _))

/-- The system.  A socket cannot be bound when another one on its port has an address in conflict
with its own, as each address has with itself, and the IPv6 wildcard with all. -/
structure Sys where
  socket : Addr → Bool
  bind : Addr → UInt16 → Bool
  join : Addr → Addr → Bool
  conflict : Addr → Addr → Bool
  conflict_self : ∀ a, conflict a a = true
  conflict_symm : ∀ a b, conflict a b = conflict b a
  conflict_any : ∀ a, conflict in6addr_any a = true

/-- An element of `mcastgroups`. -/
structure Group where
  addr : Addr
  ref : Bool
  deriving DecidableEq

/-- An element of `listensocks`, and the groups that its socket has joined. -/
structure Socklist where
  addr : Addr
  port : UInt16
  ref : Bool
  mcastgroups : List Group
  joined : List Addr
  deriving DecidableEq

abbrev Key := Addr × UInt16

def Socklist.key (s : Socklist) : Key := (s.addr, s.port)

def Socklist.recorded (s : Socklist) : List Addr := s.mcastgroups.map Group.addr

inductive Call where
  | bind (addr : Addr) (port : UInt16)
  | close (addr : Addr) (port : UInt16)
  | join (addr : Addr) (port : UInt16) (group : Addr)
  | leave (addr : Addr) (port : UInt16) (group : Addr)
  deriving DecidableEq

/-- `listensocks`, `currentRequestPort`, and the calls of the system so far. -/
structure State where
  listensocks : List Socklist
  currentRequestPort : UInt16
  calls : List Call

structure Listen where
  iface : Option Addr
  mcasts : List Addr

/-- The address of an entry; the others have none of a length that is known. -/
def HostEntry.hostAddress : HostEntry → Addr
  | .address _ hostAddress => hostAddress
  | _ => []

/-! ## The code -/

def forEachListenAddr (acc : AccArr) : List Listen :=
  acc.listenList.map fun l =>
    { iface := l.iface.map fun ifc => HostEntry.hostAddress (acc.hostList.getD ifc .broadcast)
      mcasts := (acc.slice l.mcasts l.nmcasts).map HostEntry.hostAddress }

/-- `bind` finds nothing in its way. -/
def canBind (sys : Sys) (l : List Socklist) (addr : Addr) (port : UInt16) : Bool :=
  sys.bind addr port && l.all fun s => !(s.port == port && sys.conflict addr s.addr)

/-- `createSocklistEntry` and `createListeningSocket`. -/
def create (sys : Sys) (requestPort : UInt16) (s : State) (addr : Addr) : State × Option Key :=
  if Known addr ∧ requestPort ≠ 0 ∧ sys.socket addr then
    if canBind sys s.listensocks addr requestPort then
      ({ s with
        listensocks := ⟨addr, requestPort, true, [], []⟩ :: s.listensocks
        calls := s.calls ++ [.bind addr requestPort] }, some (addr, requestPort))
    else
      ({ s with calls := s.calls ++ [.bind addr requestPort, .close addr requestPort] }, none)
  else (s, none)

/-- `s->ref = True` -/
def Socklist.refer (s : Socklist) : Socklist := { s with ref := true }

/-- `updateListener` for an address; the closure is the key of the element. -/
def updateListenerAt (sys : Sys) (requestPort : UInt16) (s : State) (addr : Addr) :
    State × Option Key :=
  if s.currentRequestPort = requestPort then
    match Keyed.get Socklist.addr s.listensocks addr with
    | some x =>
      ({ s with listensocks := Keyed.update Socklist.key s.listensocks x.key Socklist.refer },
        some x.key)
    | none => create sys requestPort s addr
  else create sys requestPort s addr

def updateListener (sys : Sys) (requestPort : UInt16) (s : State) (addr : Option Addr) :
    State × Option Key :=
  match addr with
  | some addr => updateListenerAt sys requestPort s addr
  | none =>
    match updateListenerAt sys requestPort s in6addr_any with
    | (s, some k) => (s, some k)
    | (s, none) => updateListenerAt sys requestPort s INADDR_ANY

/-- The reference to a group that is recorded. -/
def Socklist.mark (s : Socklist) (addr : Addr) : Socklist :=
  { s with
    mcastgroups := Keyed.update Group.addr s.mcastgroups addr fun g => { g with ref := true } }

/-- `changeMcastMembership` for a group that is joined. -/
def Socklist.join (sys : Sys) (s : Socklist) (addr : Addr) : Socklist :=
  { s with
    joined := if sys.join s.addr addr && !s.joined.contains addr then addr :: s.joined else s.joined }

/-- `updateMcastGroup`; the new element is not linked. -/
def updateMcastGroup (sys : Sys) (s : State) (closure : Option Key) (addr : Addr) : State :=
  match closure.bind fun k => Keyed.get Socklist.key s.listensocks k with
  | none => s
  | some x =>
    if x.recorded.contains addr then
      { s with listensocks := Keyed.update Socklist.key s.listensocks x.key fun x => x.mark addr }
    else if Known addr then
      { s with
        listensocks := Keyed.update Socklist.key s.listensocks x.key fun x => x.join sys addr
        calls := s.calls ++ [.join x.addr x.port addr] }
    else s

/-- One round of `forEachListenAddr`. -/
def listen (sys : Sys) (requestPort : UInt16) (s : State) (l : Listen) : State :=
  let r := updateListener sys requestPort s l.iface
  l.mcasts.foldl (fun s addr => updateMcastGroup sys s r.2 addr) r.1

def Socklist.clear (s : Socklist) : Socklist :=
  { s with ref := false, mcastgroups := s.mcastgroups.map fun g => { g with ref := false } }

/-- The groups that are not referred to. -/
def Socklist.dropped (s : Socklist) : List Addr :=
  (s.mcastgroups.filter fun g => !g.ref).map Group.addr

/-- What the last loop leaves of an element. -/
def Socklist.sweep (s : Socklist) : Option Socklist :=
  if s.ref then
    some { s with
      mcastgroups := s.mcastgroups.filter fun g => g.ref
      joined := s.joined.filter fun g => !s.dropped.contains g }
  else none

def Socklist.sweepCalls (s : Socklist) : List Call :=
  if s.ref then s.dropped.map fun g => .leave s.addr s.port g else [.close s.addr s.port]

def updateListenSockets (sys : Sys) (requestPort : UInt16) (cfg : List Listen) (s : State) :
    State :=
  let s := cfg.foldl (listen sys requestPort)
    { s with listensocks := s.listensocks.map Socklist.clear }
  { listensocks := s.listensocks.filterMap Socklist.sweep
    currentRequestPort := requestPort
    calls := s.calls ++ s.listensocks.flatMap Socklist.sweepCalls }

/-! ## The property -/

/-- A socket can be had when nothing of our own is in the way. -/
structure Avail (sys : Sys) (addr : Addr) (port : UInt16) : Prop where
  known : Known addr
  nonzero : port ≠ 0
  socket : sys.socket addr = true
  bind : sys.bind addr port = true

instance avail_decidable (sys : Sys) (addr : Addr) (port : UInt16) :
    Decidable (Avail sys addr port) :=
  decidable_of_iff (Known addr ∧ port ≠ 0 ∧ sys.socket addr = true ∧ sys.bind addr port = true)
    ⟨fun ⟨h1, h2, h3, h4⟩ => ⟨h1, h2, h3, h4⟩, fun h => ⟨h.known, h.nonzero, h.socket, h.bind⟩⟩

/-- The address that an interface stands for: the wildcard is that of IPv6, where there is one. -/
def Listen.target (sys : Sys) (port : UInt16) (l : Listen) : Addr :=
  match l.iface with
  | some addr => addr
  | none => if Avail sys in6addr_any port then in6addr_any else INADDR_ANY

/-- A group is configured for an address. -/
def Configured (sys : Sys) (port : UInt16) (cfg : List Listen) (addr group : Addr) : Prop :=
  ∃ l ∈ cfg, l.target sys port = addr ∧ group ∈ l.mcasts

/-- The sockets and the groups are those of the configuration. -/
structure Converged (sys : Sys) (port : UInt16) (cfg : List Listen) (s : State) : Prop where
  nodup : (s.listensocks.map Socklist.addr).Nodup
  ports : ∀ x ∈ s.listensocks, x.port = port
  sockets : ∀ addr, addr ∈ s.listensocks.map Socklist.addr ↔
    port ≠ 0 ∧ ∃ l ∈ cfg, l.target sys port = addr
  recorded : ∀ x ∈ s.listensocks, ∀ g, g ∈ x.recorded ↔ Configured sys port cfg x.addr g
  joined : ∀ x ∈ s.listensocks, ∀ g, g ∈ x.joined ↔ Configured sys port cfg x.addr g

/-- Some groups were removed from the configuration. -/
def Shrunk (cfg' cfg : List Listen) : Prop :=
  List.Forall₂ (fun l' l => l'.iface = l.iface ∧ l'.mcasts ⊆ l.mcasts) cfg' cfg

/-- **The property** of a call: it converges, a second one does nothing, and one after groups were
removed leaves them. -/
structure Settled (sys : Sys) (port : UInt16) (cfg : List Listen) (s : State) : Prop where
  converged : Converged sys port cfg (updateListenSockets sys port cfg s)
  quiet : (updateListenSockets sys port cfg (updateListenSockets sys port cfg s)).calls =
    (updateListenSockets sys port cfg s).calls
  leaves : ∀ cfg', Shrunk cfg' cfg →
    Converged sys port cfg' (updateListenSockets sys port cfg' (updateListenSockets sys port cfg s))

/-- What the list can be: its sockets are on the current port, they can be had together, and the
groups that are recorded are joined. -/
structure Valid (sys : Sys) (s : State) : Prop where
  ports : ∀ x ∈ s.listensocks, x.port = s.currentRequestPort
  avail : ∀ x ∈ s.listensocks, Avail sys x.addr x.port
  apart : s.listensocks.Pairwise fun x y => sys.conflict x.addr y.addr = false
  groups : ∀ x ∈ s.listensocks, x.recorded.Nodup
  joined : ∀ x ∈ s.listensocks, x.recorded ⊆ x.joined

/-- The condition for a port. -/
structure Steady (sys : Sys) (port : UInt16) (cfg : List Listen) (s : State) : Prop where
  /-- Each address is there, or it can be had next to the sockets that are there. -/
  sockets : ∀ l ∈ cfg,
    s.currentRequestPort = port ∧ l.target sys port ∈ s.listensocks.map Socklist.addr ∨
      Avail sys (l.target sys port) port ∧ (s.currentRequestPort = port →
        ∀ x ∈ s.listensocks, sys.conflict (l.target sys port) x.addr = false)
  /-- The addresses can be had together. -/
  apart : ∀ l ∈ cfg, ∀ l' ∈ cfg, l.target sys port ≠ l'.target sys port →
    sys.conflict (l.target sys port) (l'.target sys port) = false
  /-- All groups are recorded already. -/
  groups : ∀ l ∈ cfg, ∀ g ∈ l.mcasts, s.currentRequestPort = port ∧
    ∃ x ∈ s.listensocks, x.addr = l.target sys port ∧ g ∈ x.recorded
  /-- The sockets that stay have joined no others. -/
  joined : s.currentRequestPort = port → ∀ x ∈ s.listensocks,
    (∃ l ∈ cfg, l.target sys port = x.addr) → x.joined ⊆ x.recorded
  /-- The wildcard does not fall back to IPv4 for want of an address. -/
  wildcard : (∃ l ∈ cfg, l.iface = none) → sys.socket in6addr_any = true →
    Avail sys in6addr_any port

variable {sys : Sys} {port : UInt16} {cfg : List Listen} {st s : State}

theorem target_some {l : Listen} {addr : Addr} (h : l.iface = some addr) :
    l.target sys port = addr := by
  unfold Listen.target
  rw [h]

theorem target_avail {l : Listen} (h : l.iface = none) (ha : Avail sys in6addr_any port) :
    l.target sys port = in6addr_any := by
  unfold Listen.target
  rw [h]
  exact if_pos ha

theorem target_unavail {l : Listen} (h : l.iface = none) (ha : ¬ Avail sys in6addr_any port) :
    l.target sys port = INADDR_ANY := by
  unfold Listen.target
  rw [h]
  exact if_neg ha

/-! ## In the middle of a call -/

/-- The element `x` was `o` when the call began. -/
structure Kept (port : UInt16) (st : State) (o x : Socklist) : Prop where
  key : x.key = o.key
  recorded : x.recorded = o.recorded
  joined : o.joined ⊆ x.joined
  ref : x.ref = true → st.currentRequestPort = port

/-- The element is a new one. -/
structure New (sys : Sys) (port : UInt16) (st : State) (x : Socklist) : Prop where
  onPort : x.port = port
  groups : x.mcastgroups = []
  avail : Avail sys x.addr port
  apart : st.currentRequestPort = port → ∀ o ∈ st.listensocks, sys.conflict x.addr o.addr = false

/-- Where a call that began with `st` can be before its last loop. -/
structure Mid (sys : Sys) (port : UInt16) (st s : State) : Prop where
  current : s.currentRequestPort = st.currentRequestPort
  each : ∀ x ∈ s.listensocks, (∃ o ∈ st.listensocks, Kept port st o x) ∨ New sys port st x
  kept : ∀ o ∈ st.listensocks, ∃ x ∈ s.listensocks, x.key = o.key
  apart : s.listensocks.Pairwise fun x y => x.port = y.port → sys.conflict x.addr y.addr = false

/-- A write that leaves alone what a call does not change. -/
structure Write (port : UInt16) (st : State) (f : Socklist → Socklist) : Prop where
  key : ∀ x, (f x).key = x.key
  recorded : ∀ x, (f x).recorded = x.recorded
  joined : ∀ x, x.joined ⊆ (f x).joined
  ref : ∀ x, (f x).ref = true → x.ref = true ∨ st.currentRequestPort = port

theorem addr_of_key {x y : Socklist} (h : x.key = y.key) : x.addr = y.addr := congrArg Prod.fst h

theorem port_of_key {x y : Socklist} (h : x.key = y.key) : x.port = y.port := congrArg Prod.snd h

theorem groups_nil_iff {x : Socklist} : x.recorded = [] ↔ x.mcastgroups = [] := List.map_eq_nil_iff

namespace Write

variable {f : Socklist → Socklist} {o x : Socklist}

theorem keptBy (hf : Write port st f) (h : Kept port st o x) : Kept port st o (f x) where
  key := (hf.key x).trans h.key
  recorded := (hf.recorded x).trans h.recorded
  joined := fun _ hg => hf.joined x (h.joined hg)
  ref := fun hr => (hf.ref x hr).elim h.ref id

theorem newBy (hf : Write port st f) (h : New sys port st x) : New sys port st (f x) where
  onPort := (port_of_key (hf.key x)).trans h.onPort
  groups := groups_nil_iff.mp ((hf.recorded x).trans (groups_nil_iff.mpr h.groups))
  avail := by rw [addr_of_key (hf.key x)]; exact h.avail
  apart := by rw [addr_of_key (hf.key x)]; exact h.apart

end Write

namespace Mid

theorem start (port : UInt16) (hv : Valid sys st) :
    Mid sys port st { st with listensocks := st.listensocks.map Socklist.clear } where
  current := rfl
  each := by
    intro x hx
    obtain ⟨o, ho, rfl⟩ := List.mem_map.mp hx
    refine .inl ⟨o, ho, ⟨rfl, ?_, fun _ h => h, fun h => by cases h⟩⟩
    unfold Socklist.recorded Socklist.clear
    rw [List.map_map]
    rfl
  kept := fun o ho => ⟨o.clear, List.mem_map_of_mem ho, rfl⟩
  apart := by
    rw [List.pairwise_map]
    refine hv.apart.imp fun {x y} hxy _ => ?_
    exact hxy

theorem calls (h : Mid sys port st s) (calls : List Call) : Mid sys port st { s with calls } :=
  ⟨h.current, h.each, h.kept, h.apart⟩

theorem update (h : Mid sys port st s) {f : Socklist → Socklist} (hf : Write port st f) (k : Key) :
    Mid sys port st { s with listensocks := Keyed.update Socklist.key s.listensocks k f } where
  current := h.current
  each := by
    intro x hx
    obtain ⟨y, hy, ⟨_, rfl⟩ | ⟨_, rfl⟩⟩ := Keyed.mem_update hx
    · exact (h.each y hy).imp (fun ⟨o, ho, hk⟩ => ⟨o, ho, hf.keptBy hk⟩) hf.newBy
    · exact h.each x hy
  kept := by
    intro o ho
    exact Keyed.exists_update hf.key (h.kept o ho)
  apart := by
    have hkey : ∀ x, (if x.key = k then f x else x).key = x.key := by
      intro x
      split
      · exact hf.key x
      · rfl
    unfold Keyed.update
    rw [List.pairwise_map]
    refine h.apart.imp fun {x y} hxy hp => ?_
    rw [addr_of_key (hkey x), addr_of_key (hkey y)]
    rw [port_of_key (hkey x), port_of_key (hkey y)] at hp
    exact hxy hp

theorem create (h : Mid sys port st s) (hv : Valid sys st) (addr : Addr) :
    Mid sys port st (create sys port s addr).1 := by
  unfold Listeners.create
  split
  · rename_i hkn
    split
    · rename_i hcan
      obtain ⟨hbind, hfree⟩ := Bool.and_eq_true_iff.mp hcan
      have hfree : ∀ x ∈ s.listensocks, x.port = port → sys.conflict addr x.addr = false := by
        intro x hx hp
        have := List.all_eq_true.mp hfree x hx
        simpa [hp] using this
      refine ⟨h.current, ?_, ?_,
        List.pairwise_cons.mpr ⟨fun x hx hp => hfree x hx hp.symm, h.apart⟩⟩
      · intro x hx
        rcases List.mem_cons.mp hx with rfl | hx
        · refine .inr ⟨rfl, rfl, ⟨hkn.1, hkn.2.1, hkn.2.2, hbind⟩, fun hc o ho => ?_⟩
          obtain ⟨y, hy, hk⟩ := h.kept o ho
          have hp : y.port = port := (port_of_key hk).trans ((hv.ports o ho).trans hc)
          rw [← addr_of_key hk]
          exact hfree y hy hp
        · exact h.each x hx
      · intro o ho
        obtain ⟨x, hx, hk⟩ := h.kept o ho
        exact ⟨x, List.mem_cons_of_mem _ hx, hk⟩
    · exact h.calls _
  · exact h

theorem write_refer (hc : st.currentRequestPort = port) : Write port st Socklist.refer where
  key := fun _ => rfl
  recorded := fun _ => rfl
  joined := fun _ _ hg => hg
  ref := fun _ _ => .inr hc

theorem updateListenerAt (h : Mid sys port st s) (hv : Valid sys st) (addr : Addr) :
    Mid sys port st (updateListenerAt sys port s addr).1 := by
  unfold Listeners.updateListenerAt
  split
  · rename_i hc
    split
    · exact h.update (write_refer (h.current ▸ hc)) _
    · exact h.create hv addr
  · exact h.create hv addr

theorem updateListener (h : Mid sys port st s) (hv : Valid sys st) (addr : Option Addr) :
    Mid sys port st (updateListener sys port s addr).1 := by
  cases addr with
  | some addr => exact h.updateListenerAt hv addr
  | none =>
    have hany := h.updateListenerAt hv in6addr_any
    unfold Listeners.updateListener
    dsimp only
    generalize Listeners.updateListenerAt sys port s in6addr_any = r at hany ⊢
    obtain ⟨s', _ | k⟩ := r
    · exact hany.updateListenerAt hv INADDR_ANY
    · exact hany

theorem write_mark (addr : Addr) : Write port st fun x => x.mark addr where
  key := fun _ => rfl
  recorded := fun _ => Keyed.map_key_update fun _ => rfl
  joined := fun _ _ hg => hg
  ref := fun _ hr => .inl hr

theorem write_join (addr : Addr) : Write port st fun x => x.join sys addr where
  key := fun _ => rfl
  recorded := fun _ => rfl
  joined := by
    intro x g hg
    show g ∈ if _ then _ else _
    split
    · exact List.mem_cons_of_mem _ hg
    · exact hg
  ref := fun _ hr => .inl hr

theorem updateMcastGroup (h : Mid sys port st s) (closure : Option Key) (addr : Addr) :
    Mid sys port st (updateMcastGroup sys s closure addr) := by
  unfold Listeners.updateMcastGroup
  split
  · exact h
  · split
    · exact h.update (write_mark addr) _
    · split
      · exact (h.update (write_join addr) _).calls _
      · exact h

theorem listen (h : Mid sys port st s) (hv : Valid sys st) (l : Listen) :
    Mid sys port st (listen sys port s l) := by
  unfold Listeners.listen
  have hl := h.updateListener hv l.iface
  generalize Listeners.updateListener sys port s l.iface = r at hl ⊢
  obtain ⟨s', closure⟩ := r
  dsimp only at hl ⊢
  generalize l.mcasts = mcasts
  induction mcasts generalizing s' with
  | nil => exact hl
  | cons g mcasts ih => exact ih _ (hl.updateMcastGroup closure g)

theorem run (h : Mid sys port st s) (hv : Valid sys st) (cfg : List Listen) :
    Mid sys port st (cfg.foldl (Listeners.listen sys port) s) := by
  induction cfg generalizing s with
  | nil => exact h
  | cons l cfg ih => exact ih (h.listen hv l)

end Mid

/-! ## After a call -/

/-- The state before the last loop. -/
def beforeSweep (sys : Sys) (port : UInt16) (cfg : List Listen) (st : State) : State :=
  cfg.foldl (listen sys port) { st with listensocks := st.listensocks.map Socklist.clear }

theorem mid_beforeSweep (port : UInt16) (hv : Valid sys st) (cfg : List Listen) :
    Mid sys port st (beforeSweep sys port cfg st) :=
  (Mid.start port hv).run hv cfg

/-- An element that is left comes from one with a reference. -/
theorem mem_after {x' : Socklist} :
    x' ∈ (updateListenSockets sys port cfg st).listensocks ↔
      ∃ x ∈ (beforeSweep sys port cfg st).listensocks, x.ref = true ∧ x' =
        { x with
          mcastgroups := x.mcastgroups.filter fun g => g.ref
          joined := x.joined.filter fun g => !x.dropped.contains g } := by
  show x' ∈ (beforeSweep sys port cfg st).listensocks.filterMap Socklist.sweep ↔ _
  rw [List.mem_filterMap]
  refine exists_congr fun x => and_congr_right fun _ => ?_
  unfold Socklist.sweep
  split
  · rename_i hr
    rw [Option.some.injEq, hr, and_iff_right rfl]
    exact eq_comm
  · rename_i hr
    exact iff_of_false (fun h => by cases h) fun h => hr h.1

theorem after_calls (sys : Sys) (port : UInt16) (cfg : List Listen) (st : State) :
    (updateListenSockets sys port cfg st).calls = (beforeSweep sys port cfg st).calls ++
      (beforeSweep sys port cfg st).listensocks.flatMap Socklist.sweepCalls := rfl

theorem recorded_sweep {x : Socklist} {g : Addr} :
    g ∈ (x.mcastgroups.filter fun g => g.ref).map Group.addr ↔
      ∃ m ∈ x.mcastgroups, m.ref = true ∧ m.addr = g := by
  simp only [List.mem_map, List.mem_filter, and_assoc]

theorem mem_dropped {x : Socklist} {g : Addr} :
    g ∈ x.dropped ↔ ∃ m ∈ x.mcastgroups, m.ref = false ∧ m.addr = g := by
  unfold Socklist.dropped
  simp only [List.mem_map, List.mem_filter, and_assoc, Bool.not_eq_true']

theorem not_dropped {x : Socklist} {g : Addr} :
    (!x.dropped.contains g) = true ↔ g ∉ x.dropped := by
  simp

theorem Mid.onPort (h : Mid sys port st s) (hv : Valid sys st) {x : Socklist}
    (hx : x ∈ s.listensocks) (hr : x.ref = true) : x.port = port := by
  rcases h.each x hx with ⟨o, ho, hk⟩ | hn
  · exact (port_of_key hk.key).trans ((hv.ports o ho).trans (hk.ref hr))
  · exact hn.onPort

theorem Mid.avail (h : Mid sys port st s) (hv : Valid sys st) {x : Socklist}
    (hx : x ∈ s.listensocks) : Avail sys x.addr x.port := by
  rcases h.each x hx with ⟨o, ho, hk⟩ | hn
  · rw [addr_of_key hk.key, port_of_key hk.key]
    exact hv.avail o ho
  · rw [hn.onPort]
    exact hn.avail

theorem nodup_of_apart {l : List Socklist}
    (h : l.Pairwise fun x y => sys.conflict x.addr y.addr = false) :
    (l.map Socklist.addr).Nodup := by
  unfold List.Nodup
  rw [List.pairwise_map]
  refine h.imp fun {x y} hxy he => ?_
  rw [he, sys.conflict_self] at hxy
  cases hxy

theorem apart_of_mem {l : List Socklist}
    (h : l.Pairwise fun x y => sys.conflict x.addr y.addr = false) {x y : Socklist} (hx : x ∈ l)
    (hy : y ∈ l) (hne : x.addr ≠ y.addr) : sys.conflict x.addr y.addr = false := by
  induction h with
  | nil => cases hx
  | @cons z l hz _ ih =>
    rcases List.mem_cons.mp hx with rfl | hx' <;> rcases List.mem_cons.mp hy with rfl | hy'
    · exact absurd rfl hne
    · exact hz y hy'
    · rw [sys.conflict_symm]
      exact hz x hx'
    · exact ih hx' hy'

theorem apart_after (hv : Valid sys st) (cfg : List Listen) :
    (updateListenSockets sys port cfg st).listensocks.Pairwise
      fun x y => sys.conflict x.addr y.addr = false := by
  have hm := mid_beforeSweep port hv cfg
  show ((beforeSweep sys port cfg st).listensocks.filterMap Socklist.sweep).Pairwise _
  rw [List.pairwise_filterMap]
  refine (List.Pairwise.and_mem.mp hm.apart).imp fun {x y} ⟨hx, hy, hxy⟩ x' hx' y' hy' => ?_
  unfold Socklist.sweep at hx' hy'
  split at hx' <;> split at hy'
  · rename_i hrx hry
    cases hx'
    cases hy'
    exact hxy ((hm.onPort hv hx hrx).trans (hm.onPort hv hy hry).symm)
  · cases hy'
  · cases hx'
  · cases hx'

/-- **What the list can be** it can be after a call. -/
theorem Valid.after (port : UInt16) (hv : Valid sys st) (cfg : List Listen) :
    Valid sys (updateListenSockets sys port cfg st) := by
  have hm := mid_beforeSweep port hv cfg
  -- an element in the middle of the call has what it had at the beginning
  have hrec : ∀ x ∈ (beforeSweep sys port cfg st).listensocks,
      x.recorded.Nodup ∧ x.recorded ⊆ x.joined := by
    intro x hx
    rcases hm.each x hx with ⟨o, ho, hk⟩ | hn
    · rw [hk.recorded]
      exact ⟨hv.groups o ho, fun g hg => hk.joined (hv.joined o ho hg)⟩
    · rw [groups_nil_iff.mpr hn.groups]
      exact ⟨List.nodup_nil, fun g hg => by cases hg⟩
  refine ⟨fun x' hx' => ?_, fun x' hx' => ?_, apart_after hv cfg, fun x' hx' => ?_,
    fun x' hx' => ?_⟩
  · obtain ⟨x, hx, hr, rfl⟩ := mem_after.mp hx'
    have hp := hm.onPort hv hx hr
    exact hp
  · obtain ⟨x, hx, hr, rfl⟩ := mem_after.mp hx'
    have ha := hm.avail hv hx
    exact ha
  · obtain ⟨x, hx, hr, rfl⟩ := mem_after.mp hx'
    exact (hrec x hx).1.sublist (List.filter_sublist.map _)
  · obtain ⟨x, hx, hr, rfl⟩ := mem_after.mp hx'
    intro g hg
    obtain ⟨m, hmem, hmr, rfl⟩ := recorded_sweep.mp hg
    refine List.mem_filter.mpr ⟨(hrec x hx).2 (List.mem_map_of_mem hmem), ?_⟩
    rw [not_dropped, mem_dropped]
    rintro ⟨m', hmem', hmr', he⟩
    have := List.inj_on_of_nodup_map (hrec x hx).1 hmem' hmem he
    rw [this, hmr] at hmr'
    cases hmr'

/-- No group is ever recorded. -/
theorem unrecorded_after (hv : Valid sys st) (h : ∀ x ∈ st.listensocks, x.recorded = [])
    (cfg : List Listen) :
    ∀ x ∈ (updateListenSockets sys port cfg st).listensocks, x.recorded = [] := by
  intro x' hx'
  obtain ⟨x, hx, _, rfl⟩ := mem_after.mp hx'
  have hnil : x.mcastgroups = [] := by
    rcases (mid_beforeSweep port hv cfg).each x hx with ⟨o, ho, hk⟩ | hn
    · exact groups_nil_iff.mp (hk.recorded.trans (h o ho))
    · exact hn.groups
  show (x.mcastgroups.filter fun g => g.ref).map Group.addr = []
  rw [hnil]
  rfl

/-! ## The condition is needed -/

/-- An element with the address of one that was there is that one. -/
theorem Mid.kept_of_addr (h : Mid sys port st s) (hv : Valid sys st)
    (hc : st.currentRequestPort = port) {o x : Socklist} (ho : o ∈ st.listensocks)
    (hx : x ∈ s.listensocks) (he : x.addr = o.addr) : Kept port st o x := by
  rcases h.each x hx with ⟨o', ho', hk⟩ | hn
  · have : o' = o := List.inj_on_of_nodup_map (nodup_of_apart hv.apart) ho' ho
      ((addr_of_key hk.key).symm.trans he)
    exact this ▸ hk
  · have := hn.apart hc o ho
    rw [he, sys.conflict_self] at this
    cases this

theorem steady_sockets (hv : Valid sys st)
    (h : Converged sys port cfg (updateListenSockets sys port cfg st)) (hp : port ≠ 0) :
    ∀ l ∈ cfg, st.currentRequestPort = port ∧ l.target sys port ∈ st.listensocks.map Socklist.addr ∨
      Avail sys (l.target sys port) port ∧ (st.currentRequestPort = port →
        ∀ x ∈ st.listensocks, sys.conflict (l.target sys port) x.addr = false) := by
  intro l hl
  have hm := mid_beforeSweep port hv cfg
  obtain ⟨x', hx', he⟩ := List.mem_map.mp ((h.sockets _).mpr ⟨hp, l, hl, rfl⟩)
  obtain ⟨x, hx, hr, rfl⟩ := mem_after.mp hx'
  have he : x.addr = l.target sys port := he
  rw [← he]
  rcases hm.each x hx with ⟨o, ho, hk⟩ | hn
  · refine .inl ⟨hk.ref hr, ?_⟩
    rw [addr_of_key hk.key]
    exact List.mem_map_of_mem ho
  · exact .inr ⟨hn.avail, hn.apart⟩

theorem steady_apart (hv : Valid sys st)
    (h : Converged sys port cfg (updateListenSockets sys port cfg st)) (hp : port ≠ 0) :
    ∀ l ∈ cfg, ∀ l' ∈ cfg, l.target sys port ≠ l'.target sys port →
      sys.conflict (l.target sys port) (l'.target sys port) = false := by
  intro l hl l' hl' hne
  obtain ⟨x, hx, he⟩ := List.mem_map.mp ((h.sockets _).mpr ⟨hp, l, hl, rfl⟩)
  obtain ⟨y, hy, he'⟩ := List.mem_map.mp ((h.sockets _).mpr ⟨hp, l', hl', rfl⟩)
  rw [← he, ← he'] at hne ⊢
  exact apart_of_mem (apart_after hv cfg) hx hy hne

theorem steady_groups (hv : Valid sys st)
    (h : Converged sys port cfg (updateListenSockets sys port cfg st)) (hp : port ≠ 0) :
    ∀ l ∈ cfg, ∀ g ∈ l.mcasts, st.currentRequestPort = port ∧
      ∃ x ∈ st.listensocks, x.addr = l.target sys port ∧ g ∈ x.recorded := by
  intro l hl g hg
  have hm := mid_beforeSweep port hv cfg
  obtain ⟨x', hx', he⟩ := List.mem_map.mp ((h.sockets _).mpr ⟨hp, l, hl, rfl⟩)
  have hrec := (h.recorded x' hx' g).mpr ⟨l, hl, he.symm, hg⟩
  obtain ⟨x, hx, hr, rfl⟩ := mem_after.mp hx'
  obtain ⟨m, hmem, _, rfl⟩ := recorded_sweep.mp hrec
  rcases hm.each x hx with ⟨o, ho, hk⟩ | hn
  · refine ⟨hk.ref hr, o, ho, (addr_of_key hk.key).symm.trans he, ?_⟩
    rw [← hk.recorded]
    exact List.mem_map_of_mem hmem
  · rw [hn.groups] at hmem
    cases hmem

theorem steady_joined (hv : Valid sys st)
    (h : Converged sys port cfg (updateListenSockets sys port cfg st)) (hp : port ≠ 0)
    (hc : st.currentRequestPort = port) : ∀ o ∈ st.listensocks,
      (∃ l ∈ cfg, l.target sys port = o.addr) → o.joined ⊆ o.recorded := by
  rintro o ho ⟨l, hl, hto⟩ g hg
  have hm := mid_beforeSweep port hv cfg
  obtain ⟨x', hx', he⟩ := List.mem_map.mp ((h.sockets _).mpr ⟨hp, l, hl, rfl⟩)
  have hall := h.recorded x' hx' g
  have hjoined := h.joined x' hx' g
  obtain ⟨x, hx, hr, rfl⟩ := mem_after.mp hx'
  have hk := hm.kept_of_addr hv hc ho hx (Eq.trans he hto)
  rw [← hk.recorded]
  by_cases hd : g ∈ x.dropped
  · obtain ⟨m, hmem, _, rfl⟩ := mem_dropped.mp hd
    exact List.mem_map_of_mem hmem
  · have hj := hjoined.mp (List.mem_filter.mpr ⟨hk.joined hg, not_dropped.mpr hd⟩)
    obtain ⟨m, hmem, _, rfl⟩ := recorded_sweep.mp (hall.mpr hj)
    exact List.mem_map_of_mem hmem

/-! ### Calls are only added -/

theorem create_calls (sys : Sys) (port : UInt16) (s : State) (addr : Addr) :
    s.calls <+: (create sys port s addr).1.calls := by
  unfold create
  split
  · split
    · exact List.prefix_append _ _
    · exact List.prefix_append _ _
  · exact List.prefix_rfl

theorem updateListenerAt_calls (sys : Sys) (port : UInt16) (s : State) (addr : Addr) :
    s.calls <+: (updateListenerAt sys port s addr).1.calls := by
  unfold updateListenerAt
  split
  · split
    · exact List.prefix_rfl
    · exact create_calls sys port s addr
  · exact create_calls sys port s addr

theorem updateMcastGroup_calls (sys : Sys) (s : State) (closure : Option Key) (addr : Addr) :
    s.calls <+: (updateMcastGroup sys s closure addr).calls := by
  unfold updateMcastGroup
  split
  · exact List.prefix_rfl
  · split
    · exact List.prefix_rfl
    · split
      · exact List.prefix_append _ _
      · exact List.prefix_rfl

theorem mcasts_calls (sys : Sys) (s : State) (closure : Option Key) (mcasts : List Addr) :
    s.calls <+: (mcasts.foldl (fun s addr => updateMcastGroup sys s closure addr) s).calls := by
  induction mcasts generalizing s with
  | nil => exact List.prefix_rfl
  | cons g mcasts ih => exact (updateMcastGroup_calls sys s closure g).trans (ih _)

theorem updateListener_calls (sys : Sys) (port : UInt16) (s : State) (addr : Option Addr) :
    s.calls <+: (updateListener sys port s addr).1.calls := by
  cases addr with
  | some addr => exact updateListenerAt_calls sys port s addr
  | none =>
    have hany := updateListenerAt_calls sys port s in6addr_any
    unfold updateListener
    dsimp only
    generalize updateListenerAt sys port s in6addr_any = r at hany ⊢
    obtain ⟨s', _ | k⟩ := r
    · exact hany.trans (updateListenerAt_calls sys port s' INADDR_ANY)
    · exact hany

theorem listen_calls (sys : Sys) (port : UInt16) (s : State) (l : Listen) :
    s.calls <+: (listen sys port s l).calls :=
  (updateListener_calls sys port s l.iface).trans (mcasts_calls sys _ _ l.mcasts)

theorem run_calls (sys : Sys) (port : UInt16) (s : State) (cfg : List Listen) :
    s.calls <+: (cfg.foldl (listen sys port) s).calls := by
  induction cfg generalizing s with
  | nil => exact List.prefix_rfl
  | cons l cfg ih => exact (listen_calls sys port s l).trans (ih _)

/-- There is no element for an address that is not to be had. -/
theorem updateListenerAt_unavail (hm : Mid sys port st s) (hv : Valid sys st) {addr : Addr}
    (hno : ¬ Avail sys addr port) :
    updateListenerAt sys port s addr = create sys port s addr := by
  unfold updateListenerAt
  split
  · rename_i hc
    split
    · rename_i x hx
      have ha := hm.avail hv (Keyed.mem_of_get hx)
      rw [Keyed.key_of_get hx] at ha
      rcases hm.each x (Keyed.mem_of_get hx) with ⟨o, ho, hk⟩ | hn
      · rw [port_of_key hk.key, hv.ports o ho, ← hm.current, hc] at ha
        exact absurd ha hno
      · rw [hn.onPort] at ha
        exact absurd ha hno
    · rfl
  · rfl

/-- A wildcard whose IPv6 socket can be created, but not bound, makes a call each time. -/
theorem wildcard_calls (hm : Mid sys port st s) (hv : Valid sys st) (hp : port ≠ 0)
    (hsock : sys.socket in6addr_any = true) (hno : ¬ Avail sys in6addr_any port) {l : Listen}
    (hl : l.iface = none) : s.calls.length < (listen sys port s l).calls.length := by
  have hbind : sys.bind in6addr_any port = false :=
    Bool.eq_false_iff.mpr fun h => hno ⟨.inr rfl, hp, hsock, h⟩
  have hcreate : create sys port s in6addr_any =
      ({ s with calls := s.calls ++ [.bind in6addr_any port, .close in6addr_any port] }, none) := by
    have hkn : Known in6addr_any ∧ port ≠ 0 ∧ sys.socket in6addr_any = true := ⟨.inr rfl, hp, hsock⟩
    unfold create canBind
    rw [if_pos hkn, hbind, Bool.false_and, if_neg Bool.false_ne_true]
  have hany := updateListenerAt_unavail hm hv hno
  have hlt : s.calls.length < (updateListener sys port s l.iface).1.calls.length := by
    rw [hl]
    unfold updateListener
    rw [hany, hcreate]
    refine Nat.lt_of_lt_of_le ?_ (updateListenerAt_calls sys port _ INADDR_ANY).length_le
    rw [List.length_append]
    exact Nat.lt_add_of_pos_right (Nat.succ_pos _)
  exact Nat.lt_of_lt_of_le hlt (mcasts_calls sys _ _ l.mcasts).length_le

theorem steady_wildcard (hv : Valid sys st) (hp : port ≠ 0)
    (hquiet : (updateListenSockets sys port cfg st).calls = st.calls) :
    (∃ l ∈ cfg, l.iface = none) → sys.socket in6addr_any = true → Avail sys in6addr_any port := by
  rintro ⟨l, hl, hnone⟩ hsock
  refine Classical.byContradiction fun hno => ?_
  obtain ⟨cfg₁, cfg₂, rfl⟩ := List.append_of_mem hl
  have hbegin :=
    run_calls sys port { st with listensocks := st.listensocks.map Socklist.clear } cfg₁
  have hlt := wildcard_calls (mid_beforeSweep port hv cfg₁) hv hp hsock hno hnone
  have hend := run_calls sys port (listen sys port (beforeSweep sys port cfg₁ st) l) cfg₂
  have hbefore : (beforeSweep sys port (cfg₁ ++ l :: cfg₂) st).calls.length ≤
      (updateListenSockets sys port (cfg₁ ++ l :: cfg₂) st).calls.length :=
    (List.prefix_append _ _).length_le
  rw [hquiet, beforeSweep, List.foldl_append, List.foldl_cons] at hbefore
  have h1 := hbegin.length_le
  have h2 := hend.length_le
  exact absurd (Nat.lt_of_le_of_lt h1 hlt) (Nat.not_lt_of_le (Nat.le_trans h2 hbefore))

/-! ## The condition is enough -/

/-- Where a call is when everything went well: the addresses `R` were listened on, and the groups
`G` were referred to. -/
structure Exact (sys : Sys) (port : UInt16) (st : State) (R : Addr → Prop) (G : Addr → Addr → Prop)
    (s : State) : Prop where
  mid : Mid sys port st s
  each : ∀ x ∈ s.listensocks, (∃ o ∈ st.listensocks, Kept port st o x ∧ x.joined = o.joined) ∨
    New sys port st x ∧ x.joined = [] ∧ x.ref = true
  ref : ∀ x ∈ s.listensocks, x.ref = true ↔ x.port = port ∧ R x.addr
  groups : ∀ x ∈ s.listensocks, ∀ g ∈ x.mcastgroups, g.ref = true ↔ x.port = port ∧ G x.addr g.addr
  opened : ∀ a, R a → ∃ x ∈ s.listensocks, x.key = (a, port)

/-- Binding fails, and nothing else happens. -/
theorem create_none {addr : Addr} (h : ¬ (Avail sys addr port ∧
    ∀ x ∈ s.listensocks, x.port = port → sys.conflict addr x.addr = false)) :
    ∃ calls, create sys port s addr = ({ s with calls }, none) := by
  unfold create
  split
  · rename_i hkn
    rw [if_neg]
    · exact ⟨_, rfl⟩
    · intro hcan
      obtain ⟨hbind, hfree⟩ := Bool.and_eq_true_iff.mp hcan
      refine h ⟨⟨hkn.1, hkn.2.1, hkn.2.2, hbind⟩, fun x hx hp => ?_⟩
      have := List.all_eq_true.mp hfree x hx
      simpa [hp] using this
  · exact ⟨s.calls, rfl⟩

theorem create_some {addr : Addr} (ha : Avail sys addr port)
    (hfree : ∀ x ∈ s.listensocks, x.port = port → sys.conflict addr x.addr = false) :
    create sys port s addr = ({ s with
      listensocks := ⟨addr, port, true, [], []⟩ :: s.listensocks
      calls := s.calls ++ [.bind addr port] }, some (addr, port)) := by
  have hcan : canBind sys s.listensocks addr port = true := by
    refine Bool.and_eq_true_iff.mpr ⟨ha.bind, List.all_eq_true.mpr fun x hx => ?_⟩
    by_cases hp : x.port = port
    · simp [hp, hfree x hx hp]
    · simp [hp]
  have hkn : Known addr ∧ port ≠ 0 ∧ sys.socket addr = true := ⟨ha.known, ha.nonzero, ha.socket⟩
  unfold create
  rw [if_pos hkn, if_pos hcan]

namespace Exact

variable {R R' : Addr → Prop} {G G' : Addr → Addr → Prop}

theorem start (hv : Valid sys st) : Exact sys port st (fun _ => False) (fun _ _ => False)
    { st with listensocks := st.listensocks.map Socklist.clear } where
  mid := Mid.start port hv
  each := by
    intro x hx
    rcases (Mid.start port hv).each x hx with ⟨o, ho, hk⟩ | hn
    · refine .inl ⟨o, ho, hk, ?_⟩
      obtain ⟨o', ho', rfl⟩ := List.mem_map.mp hx
      have : o' = o :=
        List.inj_on_of_nodup_map (nodup_of_apart hv.apart) ho' ho (addr_of_key hk.key)
      rw [← this]
      rfl
    · obtain ⟨o', ho', rfl⟩ := List.mem_map.mp hx
      have hp : st.currentRequestPort = port := (hv.ports o' ho').symm.trans hn.onPort
      have := hn.apart hp o' ho'
      rw [show o'.clear.addr = o'.addr from rfl, sys.conflict_self] at this
      cases this
  ref := by
    intro x hx
    obtain ⟨o, _, rfl⟩ := List.mem_map.mp hx
    exact iff_of_false (fun h => by cases h) fun h => h.2
  groups := by
    intro x hx g hg
    obtain ⟨o, _, rfl⟩ := List.mem_map.mp hx
    obtain ⟨g', _, rfl⟩ := List.mem_map.mp hg
    exact iff_of_false (fun h => by cases h) fun h => h.2
  opened := fun _ h => h.elim

theorem calls (h : Exact sys port st R G s) (calls : List Call) :
    Exact sys port st R G { s with calls } :=
  ⟨h.mid.calls calls, h.each, h.ref, h.groups, h.opened⟩

theorem congr (h : Exact sys port st R G s) (hR : ∀ a, R a ↔ R' a) (hG : ∀ a g, G a g ↔ G' a g) :
    Exact sys port st R' G' s where
  mid := h.mid
  each := h.each
  ref := fun x hx => (h.ref x hx).trans (and_congr_right fun _ => hR _)
  groups := fun x hx g hg => (h.groups x hx g hg).trans (and_congr_right fun _ => hG _ _)
  opened := fun a ha => h.opened a ((hR a).mpr ha)

/-- An element that is there is referred to. -/
theorem refer (h : Exact sys port st R G s) (hc : st.currentRequestPort = port) {addr : Addr}
    {y : Socklist} (hy : y ∈ s.listensocks) (hk : y.key = (addr, port)) :
    Exact sys port st (fun a => R a ∨ a = addr) G
      { s with listensocks := Keyed.update Socklist.key s.listensocks y.key Socklist.refer } where
  mid := h.mid.update (Mid.write_refer hc) _
  each := by
    intro x hx
    obtain ⟨z, hz, ⟨_, rfl⟩ | ⟨_, rfl⟩⟩ := Keyed.mem_update hx
    · rcases h.each z hz with ⟨o, ho, hk, hj⟩ | ⟨hn, hj, _⟩
      · exact .inl ⟨o, ho, (Mid.write_refer hc).keptBy hk, hj⟩
      · exact .inr ⟨(Mid.write_refer hc).newBy hn, hj, rfl⟩
    · exact h.each x hz
  ref := by
    intro x hx
    obtain ⟨z, hz, ⟨hzk, rfl⟩ | ⟨hzk, rfl⟩⟩ := Keyed.mem_update hx
    · have hz' := hzk.trans hk
      exact iff_of_true rfl ⟨congrArg Prod.snd hz', .inr (congrArg Prod.fst hz')⟩
    · rw [h.ref x hz]
      refine and_congr_right fun hp => (or_iff_left fun he => hzk ?_).symm
      rw [hk, ← hp, ← he]
      rfl
  groups := by
    intro x hx
    obtain ⟨z, hz, ⟨_, rfl⟩ | ⟨_, rfl⟩⟩ := Keyed.mem_update hx
    · exact h.groups z hz
    · exact h.groups x hz
  opened := by
    rintro a (ha | rfl)
    · exact Keyed.exists_update (fun _ => rfl) (h.opened a ha)
    · exact Keyed.exists_update (fun _ => rfl) ⟨y, hy, hk⟩

/-- An element is made. -/
theorem create (h : Exact sys port st R G s) (hv : Valid sys st) {addr : Addr}
    (ha : Avail sys addr port)
    (hfree : ∀ x ∈ s.listensocks, x.port = port → sys.conflict addr x.addr = false) :
    Exact sys port st (fun a => R a ∨ a = addr) G (create sys port s addr).1 := by
  have hmid := h.mid.create hv addr
  rw [create_some ha hfree] at hmid ⊢
  refine ⟨hmid, ?_, ?_, ?_, ?_⟩
  · intro x hx
    rcases List.mem_cons.mp hx with rfl | hx'
    · refine .inr ⟨⟨rfl, rfl, ha, fun hc o ho => ?_⟩, rfl, rfl⟩
      obtain ⟨y, hy, hk⟩ := h.mid.kept o ho
      rw [← addr_of_key hk]
      exact hfree y hy ((port_of_key hk).trans ((hv.ports o ho).trans hc))
    · exact h.each x hx'
  · intro x hx
    rcases List.mem_cons.mp hx with rfl | hx'
    · exact iff_of_true rfl ⟨rfl, .inr rfl⟩
    · rw [h.ref x hx']
      refine and_congr_right fun hp => (or_iff_left fun he => ?_).symm
      have := hfree x hx' hp
      rw [he, sys.conflict_self] at this
      cases this
  · intro x hx
    rcases List.mem_cons.mp hx with rfl | hx'
    · exact fun g hg => by cases hg
    · exact h.groups x hx'
  · rintro a (ha' | rfl)
    · obtain ⟨x, hx, hk⟩ := h.opened a ha'
      exact ⟨x, List.mem_cons_of_mem _ hx, hk⟩
    · exact ⟨_, List.mem_cons_self, rfl⟩

/-- The new elements are among those that were listened on. -/
theorem new_mem (h : Exact sys port st R G s) (hv : Valid sys st) {x : Socklist}
    (hx : x ∈ s.listensocks) (hp : x.port = port) (hc : st.currentRequestPort ≠ port) :
    R x.addr := by
  rcases h.each x hx with ⟨o, ho, hk, _⟩ | ⟨_, _, hr⟩
  · exact absurd (((port_of_key hk.key).trans (hv.ports o ho)).symm.trans hp) hc
  · exact ((h.ref x hx).mp hr).2

/-- **One address** of the configuration. -/
theorem updateListenerAt (h : Exact sys port st R G s) (hv : Valid sys st)
    (hs : Steady sys port cfg st) (hR : ∀ a, R a → ∃ l ∈ cfg, l.target sys port = a) {l : Listen}
    (hl : l ∈ cfg) :
    Exact sys port st (fun a => R a ∨ a = l.target sys port) G
        (updateListenerAt sys port s (l.target sys port)).1 ∧
      (st.currentRequestPort = port →
        (Listeners.updateListenerAt sys port s (l.target sys port)).2 =
          some (l.target sys port, port)) := by
  -- an address that was listened on is no obstacle to another one
  have hother : ∀ a, R a → a ≠ l.target sys port → sys.conflict (l.target sys port) a = false := by
    intro a ha hne
    obtain ⟨l', hl', rfl⟩ := hR a ha
    exact hs.apart l hl l' hl' (Ne.symm hne)
  unfold Listeners.updateListenerAt
  by_cases hc : st.currentRequestPort = port
  · rw [if_pos (h.mid.current.trans hc)]
    cases hget : Keyed.get Socklist.addr s.listensocks (l.target sys port) with
    | some x =>
      have hx := Keyed.mem_of_get hget
      have hp : x.port = port := by
        rcases h.mid.each x hx with ⟨o, ho, hk⟩ | hn
        · exact (port_of_key hk.key).trans ((hv.ports o ho).trans hc)
        · exact hn.onPort
      have ha : x.addr = l.target sys port := Keyed.key_of_get hget
      have hk : x.key = (l.target sys port, port) := Prod.ext ha hp
      exact ⟨h.refer hc hx hk, fun _ => congrArg some hk⟩
    | none =>
      have hno : ∀ x ∈ s.listensocks, x.addr ≠ l.target sys port := by
        intro x hx he
        have := List.find?_eq_none.mp hget x hx
        simp [he] at this
      rcases hs.sockets l hl with ⟨_, hmem⟩ | ⟨ha, hfree⟩
      · obtain ⟨o, ho, he⟩ := List.mem_map.mp hmem
        obtain ⟨x, hx, hk⟩ := h.mid.kept o ho
        exact absurd ((addr_of_key hk).trans he) (hno x hx)
      · have hfree' : ∀ x ∈ s.listensocks, x.port = port →
            sys.conflict (l.target sys port) x.addr = false := by
          intro x hx _
          rcases h.each x hx with ⟨o, ho, hk, _⟩ | ⟨_, _, hr⟩
          · rw [addr_of_key hk.key]
            exact hfree hc o ho
          · exact hother _ ((h.ref x hx).mp hr).2 (hno x hx)
        exact ⟨h.create hv ha hfree', fun _ => by rw [create_some ha hfree']⟩
  · rw [if_neg fun he => hc (h.mid.current.symm.trans he)]
    refine ⟨?_, fun he => absurd he hc⟩
    by_cases hin : R (l.target sys port)
    · obtain ⟨x, hx, hk⟩ := h.opened _ hin
      have hno : ¬ (Avail sys (l.target sys port) port ∧ ∀ x ∈ s.listensocks, x.port = port →
          sys.conflict (l.target sys port) x.addr = false) := by
        intro hav
        have hxa : x.addr = l.target sys port := congrArg Prod.fst hk
        have := hav.2 x hx (congrArg Prod.snd hk)
        rw [hxa, sys.conflict_self] at this
        cases this
      obtain ⟨calls, hcr⟩ := create_none hno
      rw [hcr]
      exact (h.calls calls).congr (fun a => (or_iff_left_of_imp fun he => he ▸ hin).symm)
        fun _ _ => Iff.rfl
    · rcases hs.sockets l hl with ⟨he, _⟩ | ⟨ha, _⟩
      · exact absurd he hc
      · refine h.create hv ha fun x hx hp => ?_
        have hRx := h.new_mem hv hx hp hc
        exact hother _ hRx fun he => hin (he ▸ hRx)

/-- The round for an interface, as far as its socket goes. -/
theorem updateListener (h : Exact sys port st R G s) (hv : Valid sys st)
    (hs : Steady sys port cfg st) (hR : ∀ a, R a → ∃ l ∈ cfg, l.target sys port = a) {l : Listen}
    (hl : l ∈ cfg) :
    Exact sys port st (fun a => R a ∨ a = l.target sys port) G
        (updateListener sys port s l.iface).1 ∧
      (st.currentRequestPort = port →
        (Listeners.updateListener sys port s l.iface).2 = some (l.target sys port, port)) := by
  cases hi : l.iface with
  | some addr =>
    have ht := h.updateListenerAt hv hs hR hl
    rw [target_some hi] at ht ⊢
    exact ht
  | none =>
    unfold Listeners.updateListener
    dsimp only
    by_cases ha : Avail sys in6addr_any port
    · have ht := h.updateListenerAt hv hs hR hl
      rw [target_avail hi ha] at ht ⊢
      obtain ⟨hex, hkey⟩ := ht
      cases hr : Listeners.updateListenerAt sys port s in6addr_any with
      | mk s' k =>
        rw [hr] at hex hkey
        cases k with
        | some k => exact ⟨hex, hkey⟩
        | none =>
          -- the socket is there already, and the one for IPv4 would be in conflict with it
          have hc : st.currentRequestPort ≠ port := fun hc => by cases hkey hc
          obtain ⟨x, hx, hk⟩ := hex.opened _ (.inr rfl)
          have hno : ¬ (Avail sys INADDR_ANY port ∧
              ∀ x ∈ s'.listensocks, x.port = port → sys.conflict INADDR_ANY x.addr = false) := by
            intro hav
            have hxa : x.addr = in6addr_any := congrArg Prod.fst hk
            have := hav.2 x hx (congrArg Prod.snd hk)
            rw [hxa, sys.conflict_symm, sys.conflict_any] at this
            cases this
          obtain ⟨calls, hcr⟩ := create_none hno
          have hany : Listeners.updateListenerAt sys port s' INADDR_ANY =
              ({ s' with calls }, none) := by
            unfold Listeners.updateListenerAt
            rw [if_neg fun he => hc (hex.mid.current.symm.trans he), hcr]
          dsimp only
          rw [hany]
          exact ⟨hex.calls calls, fun he => absurd he hc⟩
    · have hno : ¬ (Avail sys in6addr_any port ∧
          ∀ x ∈ s.listensocks, x.port = port → sys.conflict in6addr_any x.addr = false) :=
        fun hav => ha hav.1
      obtain ⟨calls, hcr⟩ := create_none hno
      rw [updateListenerAt_unavail h.mid hv ha, hcr]
      have ht := (h.calls calls).updateListenerAt hv hs hR hl
      rw [target_unavail hi ha] at ht ⊢
      exact ht

/-- A group that is recorded is referred to. -/
theorem mark (h : Exact sys port st R G s) {addr g : Addr} {y : Socklist}
    (hk : y.key = (addr, port)) :
    Exact sys port st R (fun a g' => G a g' ∨ a = addr ∧ g' = g)
      { s with
        listensocks := Keyed.update Socklist.key s.listensocks y.key fun x => x.mark g } where
  mid := h.mid.update (Mid.write_mark g) _
  each := by
    intro x hx
    obtain ⟨z, hz, ⟨_, rfl⟩ | ⟨_, rfl⟩⟩ := Keyed.mem_update hx
    · rcases h.each z hz with ⟨o, ho, hzo, hj⟩ | ⟨hn, hj, hr⟩
      · exact .inl ⟨o, ho, (Mid.write_mark g).keptBy hzo, hj⟩
      · exact .inr ⟨(Mid.write_mark g).newBy hn, hj, hr⟩
    · exact h.each x hz
  ref := by
    intro x hx
    obtain ⟨z, hz, ⟨_, rfl⟩ | ⟨_, rfl⟩⟩ := Keyed.mem_update hx
    · exact h.ref z hz
    · exact h.ref x hz
  groups := by
    intro x hx m hm
    obtain ⟨z, hz, ⟨hzk, rfl⟩ | ⟨hzk, rfl⟩⟩ := Keyed.mem_update hx
    · have hz' := hzk.trans hk
      obtain ⟨m', hm', ⟨he, rfl⟩ | ⟨he, rfl⟩⟩ := Keyed.mem_update hm
      · exact iff_of_true rfl ⟨congrArg Prod.snd hz', .inr ⟨congrArg Prod.fst hz', he⟩⟩
      · rw [h.groups z hz m hm']
        exact and_congr_right fun _ => (or_iff_left fun hg => he hg.2).symm
    · rw [h.groups x hz m hm]
      refine and_congr_right fun hp => (or_iff_left fun hg => hzk ?_).symm
      rw [hk, ← hp, ← hg.1]
      rfl
  opened := fun a ha => Keyed.exists_update (fun _ => rfl) (h.opened a ha)

/-- **One group** of the configuration. -/
theorem updateMcastGroup (h : Exact sys port st R G s) (hv : Valid sys st)
    (hc : st.currentRequestPort = port) {addr g : Addr} (hR : R addr)
    (hg : ∃ o ∈ st.listensocks, o.addr = addr ∧ g ∈ o.recorded) :
    Exact sys port st R (fun a g' => G a g' ∨ a = addr ∧ g' = g)
        (updateMcastGroup sys s (some (addr, port)) g) ∧
      (Listeners.updateMcastGroup sys s (some (addr, port)) g).calls = s.calls := by
  unfold Listeners.updateMcastGroup
  rw [Option.bind_some]
  cases hget : Keyed.get Socklist.key s.listensocks (addr, port) with
  | none =>
    obtain ⟨x, hx, hk⟩ := h.opened addr hR
    have := List.find?_eq_none.mp hget x hx
    simp [hk] at this
  | some x =>
    have hk : x.key = (addr, port) := Keyed.key_of_get hget
    obtain ⟨o, ho, hoa, hog⟩ := hg
    have he : x.addr = o.addr := (congrArg Prod.fst hk).trans hoa.symm
    have hrec : g ∈ x.recorded := by
      rw [(h.mid.kept_of_addr hv hc ho (Keyed.mem_of_get hget) he).recorded]
      exact hog
    dsimp only
    rw [if_pos (List.contains_iff_mem.mpr hrec)]
    exact ⟨h.mark hk, rfl⟩

theorem mcasts (h : Exact sys port st R G s) (hv : Valid sys st)
    (hc : st.currentRequestPort = port) {addr : Addr} (hR : R addr) {gs : List Addr}
    (hgs : ∀ g ∈ gs, ∃ o ∈ st.listensocks, o.addr = addr ∧ g ∈ o.recorded) :
    Exact sys port st R (fun a g => G a g ∨ a = addr ∧ g ∈ gs)
        (gs.foldl (fun s g => Listeners.updateMcastGroup sys s (some (addr, port)) g) s) ∧
      (gs.foldl (fun s g => Listeners.updateMcastGroup sys s (some (addr, port)) g) s).calls =
        s.calls := by
  induction gs generalizing s G with
  | nil =>
    refine ⟨h.congr (fun _ => Iff.rfl) fun a g => (or_iff_left ?_).symm, rfl⟩
    rintro ⟨_, hg⟩
    cases hg
  | cons g gs ih =>
    obtain ⟨hex, hcalls⟩ := h.updateMcastGroup hv hc hR (hgs g List.mem_cons_self)
    obtain ⟨hrun, hrun'⟩ := ih hex fun g' hg' => hgs g' (List.mem_cons_of_mem _ hg')
    refine ⟨hrun.congr (fun _ => Iff.rfl) fun a g' => ?_, hrun'.trans hcalls⟩
    rw [or_assoc, ← and_or_left, List.mem_cons]

/-- **One interface** of the configuration. -/
theorem listen (h : Exact sys port st R G s) (hv : Valid sys st) (hs : Steady sys port cfg st)
    (hR : ∀ a, R a → ∃ l ∈ cfg, l.target sys port = a) {l : Listen} (hl : l ∈ cfg) :
    Exact sys port st (fun a => R a ∨ a = l.target sys port)
      (fun a g => G a g ∨ a = l.target sys port ∧ g ∈ l.mcasts) (listen sys port s l) := by
  obtain ⟨hex, hkey⟩ := h.updateListener hv hs hR hl
  unfold Listeners.listen
  dsimp only
  by_cases hc : st.currentRequestPort = port
  · rw [hkey hc]
    refine (hex.mcasts hv hc (.inr rfl) fun g hg => ?_).1
    exact (hs.groups l hl g hg).2
  · have hnil : l.mcasts = [] := List.eq_nil_iff_forall_not_mem.mpr fun g hg =>
      hc (hs.groups l hl g hg).1
    rw [hnil]
    refine hex.congr (fun _ => Iff.rfl) fun a g => (or_iff_left ?_).symm
    rintro ⟨_, hg⟩
    cases hg

theorem run (h : Exact sys port st R G s) (hv : Valid sys st) (hs : Steady sys port cfg st)
    (hR : ∀ a, R a → ∃ l ∈ cfg, l.target sys port = a) {ls : List Listen} (hls : ls ⊆ cfg) :
    Exact sys port st (fun a => R a ∨ ∃ l ∈ ls, l.target sys port = a)
      (fun a g => G a g ∨ Configured sys port ls a g) (ls.foldl (Listeners.listen sys port) s) := by
  induction ls generalizing s R G with
  | nil =>
    refine h.congr (fun a => (or_iff_left ?_).symm) fun a g => (or_iff_left ?_).symm
    · rintro ⟨_, hl, _⟩
      cases hl
    · rintro ⟨_, hl, _⟩
      cases hl
  | cons l ls ih =>
    have hl : l ∈ cfg := hls List.mem_cons_self
    have hR' : ∀ a, R a ∨ a = l.target sys port → ∃ l ∈ cfg, l.target sys port = a := by
      rintro a (ha | rfl)
      · exact hR a ha
      · exact ⟨l, hl, rfl⟩
    refine (ih (h.listen hv hs hR hl) hR' fun x hx => hls (List.mem_cons_of_mem _ hx)).congr
      (fun a => ?_) fun a g => ?_
    · rw [or_assoc, List.exists_mem_cons_iff, eq_comm]
    · unfold Configured
      rw [or_assoc, List.exists_mem_cons_iff, eq_comm]

end Exact

/-- The state before the last loop, when everything went well. -/
theorem exact_beforeSweep (hv : Valid sys st) (hs : Steady sys port cfg st) :
    Exact sys port st (fun a => ∃ l ∈ cfg, l.target sys port = a) (Configured sys port cfg)
      (beforeSweep sys port cfg st) :=
  ((Exact.start hv).run hv hs (fun _ h => h.elim) (List.Subset.refl cfg)).congr
    (fun _ => or_iff_right id) fun _ _ => or_iff_right id

/-- A configured group is recorded before the last loop. -/
theorem Exact.recorded {R : Addr → Prop} {G : Addr → Addr → Prop} (h : Exact sys port st R G s)
    (hv : Valid sys st) (hs : Steady sys port cfg st) {x : Socklist} (hx : x ∈ s.listensocks)
    {g : Addr} (hg : Configured sys port cfg x.addr g) : g ∈ x.recorded := by
  obtain ⟨l, hl, ht, hgl⟩ := hg
  obtain ⟨hc, o, ho, hoa, hog⟩ := hs.groups l hl g hgl
  rw [(h.mid.kept_of_addr hv hc ho hx (ht.symm.trans hoa.symm)).recorded]
  exact hog

theorem converged_of_steady (hv : Valid sys st) (hs : Steady sys port cfg st) (hp : port ≠ 0) :
    Converged sys port cfg (updateListenSockets sys port cfg st) := by
  have hex := exact_beforeSweep hv hs
  have hva := Valid.after port hv cfg
  have hrec : ∀ x ∈ (updateListenSockets sys port cfg st).listensocks, ∀ g,
      g ∈ x.recorded ↔ Configured sys port cfg x.addr g := by
    intro x' hx' g
    obtain ⟨x, hx, hr, rfl⟩ := mem_after.mp hx'
    have honport := ((hex.ref x hx).mp hr).1
    refine recorded_sweep.trans ⟨?_, fun hg => ?_⟩
    · rintro ⟨m, hm, hmr, rfl⟩
      exact ((hex.groups x hx m hm).mp hmr).2
    · obtain ⟨m, hm, rfl⟩ := List.mem_map.mp (hex.recorded hv hs hx hg)
      exact ⟨m, hm, (hex.groups x hx m hm).mpr ⟨honport, hg⟩, rfl⟩
  refine ⟨nodup_of_apart (apart_after hv cfg), hva.ports, fun a => ⟨fun ha => ?_, ?_⟩, hrec,
    fun x' hx' g => ⟨fun hg => ?_, fun hg => hva.joined x' hx' ((hrec x' hx' g).mpr hg)⟩⟩
  · obtain ⟨x', hx', rfl⟩ := List.mem_map.mp ha
    obtain ⟨x, hx, hr, rfl⟩ := mem_after.mp hx'
    exact ⟨hp, ((hex.ref x hx).mp hr).2⟩
  · rintro ⟨_, ht⟩
    obtain ⟨x, hx, hk⟩ := hex.opened a ht
    obtain ⟨rfl, honport⟩ := Prod.ext_iff.mp hk
    exact List.mem_map.mpr ⟨_, mem_after.mpr ⟨x, hx, (hex.ref x hx).mpr ⟨honport, ht⟩, rfl⟩, rfl⟩
  · obtain ⟨x, hx, hr, rfl⟩ := mem_after.mp hx'
    obtain ⟨hj, hd⟩ := List.mem_filter.mp hg
    rw [not_dropped, mem_dropped] at hd
    rcases hex.each x hx with ⟨o, ho, hk, hoj⟩ | ⟨_, hnil, _⟩
    · have ht := ((hex.ref x hx).mp hr).2
      rw [addr_of_key hk.key] at ht
      have hor := hs.joined (hk.ref hr) o ho ht (hoj ▸ hj)
      rw [← hk.recorded] at hor
      obtain ⟨m, hm, rfl⟩ := List.mem_map.mp hor
      refine ((hex.groups x hx m hm).mp ?_).2
      exact Bool.not_eq_false _ |>.mp fun hmr => hd ⟨m, hm, hmr, rfl⟩
    · rw [hnil] at hj
      cases hj

/-! ### A second call -/

/-- An address with an open socket is found. -/
theorem updateListenerAt_found (hm : Mid sys port st s) (hc : st.currentRequestPort = port)
    {addr : Addr} (ho : addr ∈ st.listensocks.map Socklist.addr) :
    (updateListenerAt sys port s addr).1.calls = s.calls ∧
      ∃ k, (updateListenerAt sys port s addr).2 = some k := by
  unfold updateListenerAt
  rw [if_pos (hm.current.trans hc)]
  cases hget : Keyed.get Socklist.addr s.listensocks addr with
  | some x => exact ⟨rfl, x.key, rfl⟩
  | none =>
    obtain ⟨o, hmem, rfl⟩ := List.mem_map.mp ho
    obtain ⟨x, hx, hk⟩ := hm.kept o hmem
    have := List.find?_eq_none.mp hget x hx
    simp [addr_of_key hk] at this

/-- No call is made for an interface whose socket is open. -/
theorem updateListener_quiet (hm : Mid sys port st s) (hv : Valid sys st)
    (hs : Steady sys port cfg st) (hc : st.currentRequestPort = port) {l : Listen} (hl : l ∈ cfg)
    (ho : l.target sys port ∈ st.listensocks.map Socklist.addr) :
    (updateListener sys port s l.iface).1.calls = s.calls := by
  cases hi : l.iface with
  | some addr =>
    rw [target_some hi] at ho
    exact (updateListenerAt_found hm hc ho).1
  | none =>
    unfold updateListener
    dsimp only
    by_cases ha : Avail sys in6addr_any port
    · rw [target_avail hi ha] at ho
      obtain ⟨hcalls, k, hk⟩ := updateListenerAt_found hm hc ho
      cases hr : updateListenerAt sys port s in6addr_any with
      | mk s' k' =>
        rw [hr] at hcalls hk
        cases hk
        exact hcalls
    · have hcr : create sys port s in6addr_any = (s, none) := by
        unfold create
        rw [if_neg fun hkn => ha (hs.wildcard ⟨l, hl, hi⟩ hkn.2.2)]
      rw [target_unavail hi ha] at ho
      rw [updateListenerAt_unavail hm hv ha, hcr]
      exact (updateListenerAt_found hm hc ho).1

/-- A call does nothing when the sockets and the groups are there. -/
theorem run_quiet (hv : Valid sys st) (hs : Steady sys port cfg st)
    (hc : st.currentRequestPort = port)
    (ho : ∀ l ∈ cfg, l.target sys port ∈ st.listensocks.map Socklist.addr) {R : Addr → Prop}
    {G : Addr → Addr → Prop} (h : Exact sys port st R G s)
    (hR : ∀ a, R a → ∃ l ∈ cfg, l.target sys port = a) {ls : List Listen} (hls : ls ⊆ cfg) :
    (ls.foldl (listen sys port) s).calls = s.calls := by
  induction ls generalizing s R G with
  | nil => rfl
  | cons l ls ih =>
    have hl : l ∈ cfg := hls List.mem_cons_self
    have hR' : ∀ a, R a ∨ a = l.target sys port → ∃ l ∈ cfg, l.target sys port = a := by
      rintro a (ha | rfl)
      · exact hR a ha
      · exact ⟨l, hl, rfl⟩
    have hlisten : (listen sys port s l).calls = s.calls := by
      obtain ⟨hex, hkey⟩ := h.updateListener hv hs hR hl
      unfold listen
      dsimp only
      rw [hkey hc]
      exact (hex.mcasts hv hc (.inr rfl) fun g hg => (hs.groups l hl g hg).2).2.trans
        (updateListener_quiet h.mid hv hs hc hl (ho l hl))
    exact (ih (h.listen hv hs hR hl) hR' fun x hx => hls (List.mem_cons_of_mem _ hx)).trans hlisten

theorem quiet_of_steady (hv : Valid sys st) (hs : Steady sys port cfg st)
    (h : Converged sys port cfg st) (hc : st.currentRequestPort = port) (hp : port ≠ 0) :
    (updateListenSockets sys port cfg st).calls = st.calls := by
  have hex := exact_beforeSweep hv hs
  have hrun : (beforeSweep sys port cfg st).calls = st.calls :=
    run_quiet hv hs hc (fun l hl => (h.sockets _).mpr ⟨hp, l, hl, rfl⟩) (Exact.start hv)
      (fun _ hf => hf.elim) (List.Subset.refl cfg)
  have hsweep : ∀ x ∈ (beforeSweep sys port cfg st).listensocks, x.sweepCalls = [] := by
    intro x hx
    rcases hex.each x hx with ⟨o, ho, hk, _⟩ | ⟨hn, _, hr⟩
    · have honport : x.port = port := (port_of_key hk.key).trans (h.ports o ho)
      have ht := ((h.sockets _).mp (List.mem_map_of_mem ho)).2
      rw [← addr_of_key hk.key] at ht
      have hdropped : x.dropped = [] := by
        refine List.eq_nil_iff_forall_not_mem.mpr fun g hg => ?_
        obtain ⟨m, hm, hmr, rfl⟩ := mem_dropped.mp hg
        have hrec : m.addr ∈ x.recorded := List.mem_map_of_mem hm
        rw [hk.recorded, h.recorded o ho, ← addr_of_key hk.key] at hrec
        rw [(hex.groups x hx m hm).mpr ⟨honport, hrec⟩] at hmr
        cases hmr
      unfold Socklist.sweepCalls
      rw [if_pos ((hex.ref x hx).mpr ⟨honport, ht⟩), hdropped]
      rfl
    · unfold Socklist.sweepCalls Socklist.dropped
      rw [if_pos hr, hn.groups]
      rfl
  rw [after_calls, List.flatMap_eq_nil_iff.mpr hsweep, List.append_nil, hrun]

theorem mem_shrunk (sys : Sys) (port : UInt16) {cfg' : List Listen} (h : Shrunk cfg' cfg)
    {l' : Listen} (hl' : l' ∈ cfg') :
    ∃ l ∈ cfg, l'.target sys port = l.target sys port ∧ l'.iface = l.iface ∧
      l'.mcasts ⊆ l.mcasts := by
  induction h with
  | nil => cases hl'
  | @cons a b _ _ hab _ ih =>
    rcases List.mem_cons.mp hl' with rfl | hl'
    · refine ⟨b, List.mem_cons_self, ?_, hab⟩
      unfold Listen.target
      rw [hab.1]
    · obtain ⟨l, hl, hrest⟩ := ih hl'
      exact ⟨l, List.mem_cons_of_mem _ hl, hrest⟩

/-- After a call that converged, the condition holds of a configuration with fewer groups. -/
theorem steady_after {cfg' : List Listen} (hs : Steady sys port cfg st) (hp : port ≠ 0)
    (h : Converged sys port cfg (updateListenSockets sys port cfg st)) (hsh : Shrunk cfg' cfg) :
    Steady sys port cfg' (updateListenSockets sys port cfg st) where
  sockets := by
    intro l' hl'
    obtain ⟨l, hl, ht, _⟩ := mem_shrunk sys port hsh hl'
    exact .inl ⟨rfl, (h.sockets _).mpr ⟨hp, l, hl, ht.symm⟩⟩
  apart := by
    intro l' hl' l'' hl'' hne
    obtain ⟨l, hl, ht, _⟩ := mem_shrunk sys port hsh hl'
    obtain ⟨l₂, hl₂, ht₂, _⟩ := mem_shrunk sys port hsh hl''
    rw [ht, ht₂] at hne ⊢
    exact hs.apart l hl l₂ hl₂ hne
  groups := by
    intro l' hl' g hg
    obtain ⟨l, hl, ht, _, hsub⟩ := mem_shrunk sys port hsh hl'
    obtain ⟨x, hx, hxa⟩ := List.mem_map.mp ((h.sockets _).mpr ⟨hp, l, hl, rfl⟩)
    refine ⟨rfl, x, hx, hxa.trans ht.symm, (h.recorded x hx g).mpr ?_⟩
    exact ⟨l, hl, hxa.symm, hsub hg⟩
  joined := fun _ x hx _ g hg => (h.recorded x hx g).mpr ((h.joined x hx g).mp hg)
  wildcard := by
    rintro ⟨l', hl', hi⟩
    obtain ⟨l, hl, _, hi', _⟩ := mem_shrunk sys port hsh hl'
    exact hs.wildcard ⟨l, hl, hi'.symm.trans hi⟩

theorem shrunk_refl (cfg : List Listen) : Shrunk cfg cfg :=
  List.forall₂_same.mpr fun _ _ => ⟨rfl, List.Subset.refl _⟩

theorem settled_of_steady (hv : Valid sys st) (hs : Steady sys port cfg st) (hp : port ≠ 0) :
    Settled sys port cfg st := by
  have h := converged_of_steady hv hs hp
  have hva := Valid.after port hv cfg
  refine ⟨h, quiet_of_steady hva (steady_after hs hp h (shrunk_refl cfg)) h rfl hp, ?_⟩
  exact fun cfg' hsh => converged_of_steady hva (steady_after hs hp h hsh) hp

/-! ### No port -/

/-- Without a port nothing is opened. -/
theorem listen_zero (hm : Mid sys 0 st s) (hv : Valid sys st) (l : Listen) :
    listen sys 0 s l = s := by
  have hat : ∀ addr, updateListenerAt sys 0 s addr = (s, none) := by
    intro addr
    rw [updateListenerAt_unavail hm hv fun ha => ha.nonzero rfl]
    unfold create
    rw [if_neg fun hkn => hkn.2.1 rfl]
  have hup : updateListener sys 0 s l.iface = (s, none) := by
    cases l.iface with
    | some addr => exact hat addr
    | none =>
      unfold updateListener
      dsimp only
      rw [hat]
      exact hat INADDR_ANY
  unfold listen
  rw [hup]
  dsimp only
  induction l.mcasts with
  | nil => rfl
  | cons g gs ih => exact ih

theorem beforeSweep_zero (hv : Valid sys st) (cfg : List Listen) :
    beforeSweep sys 0 cfg st = { st with listensocks := st.listensocks.map Socklist.clear } := by
  have hm := Mid.start 0 hv
  unfold beforeSweep
  induction cfg with
  | nil => rfl
  | cons l cfg ih => rw [List.foldl_cons, listen_zero hm hv, ih]

theorem after_zero (hv : Valid sys st) (cfg : List Listen) :
    (updateListenSockets sys 0 cfg st).listensocks = [] := by
  show (beforeSweep sys 0 cfg st).listensocks.filterMap Socklist.sweep = []
  rw [beforeSweep_zero hv, List.filterMap_eq_nil_iff]
  intro x hx
  obtain ⟨o, _, rfl⟩ := List.mem_map.mp hx
  rfl

theorem converged_zero (hv : Valid sys st) (cfg : List Listen) :
    Converged sys 0 cfg (updateListenSockets sys 0 cfg st) := by
  have hnil := after_zero hv cfg
  refine ⟨?_, fun x hx => ?_, fun addr => ?_, fun x hx => ?_, fun x hx => ?_⟩
  · rw [hnil]
    exact List.nodup_nil
  · rw [hnil] at hx
    cases hx
  · rw [hnil]
    exact iff_of_false (fun h => by cases h) fun h => h.1 rfl
  · rw [hnil] at hx
    cases hx
  · rw [hnil] at hx
    cases hx

theorem settled_zero (hv : Valid sys st) (cfg : List Listen) : Settled sys 0 cfg st := by
  have hva := Valid.after 0 hv cfg
  have hnil := after_zero hv cfg
  refine ⟨converged_zero hv cfg, ?_, fun cfg' _ => converged_zero hva cfg'⟩
  rw [after_calls, beforeSweep_zero hva]
  dsimp only
  rw [hnil]
  exact List.append_nil _

/-! ## When it does -/

/-- **The sockets come to be those of the database** exactly without a port, or when the addresses
can be had next to each other and to what is open, and no group is new. -/
theorem settled_iff (hv : Valid sys st) (acc : AccArr) :
    Settled sys port (forEachListenAddr acc) st ↔
      port = 0 ∨ Steady sys port (forEachListenAddr acc) st := by
  constructor
  · intro h
    by_cases hp : port = 0
    · exact .inl hp
    · have hva := Valid.after port hv (forEachListenAddr acc)
      exact .inr ⟨steady_sockets hv h.converged hp, steady_apart hv h.converged hp,
        steady_groups hv h.converged hp, steady_joined hv h.converged hp,
        steady_wildcard hva hp h.quiet⟩
  · rintro (rfl | hs)
    · exact settled_zero hv _
    · by_cases hp : port = 0
      · rw [hp]
        exact settled_zero hv _
      · exact settled_of_steady hv hs hp

/-- A system on which an address is in conflict with itself and with the wildcards. -/
def anyHost : Sys where
  socket := fun _ => true
  bind := fun _ _ => true
  join := fun _ _ => true
  conflict := fun a b => a == b || a == in6addr_any || b == in6addr_any ||
    (a.length == 4 && b.length == 4 && (a == INADDR_ANY || b == INADDR_ANY))
  conflict_self := fun a => by simp
  conflict_symm := fun a b => by
    rw [Bool.eq_iff_iff]
    simp only [Bool.or_eq_true, Bool.and_eq_true, beq_iff_eq]
    grind
  conflict_any := fun a => by simp

def atStart : State := ⟨[], 0, []⟩

theorem valid_atStart : Valid anyHost atStart :=
  ⟨List.forall_mem_nil _, List.forall_mem_nil _, List.Pairwise.nil, List.forall_mem_nil _,
    List.forall_mem_nil _⟩

/-- `LISTEN 10.0.0.1` and `LISTEN 10.0.0.2` -/
def twoAddrs : AccArr :=
  { hostList := [.address 0 [10, 0, 0, 1], .address 0 [10, 0, 0, 2]]
    listenList := [⟨some 0, 1, 0⟩, ⟨some 1, 2, 0⟩]
    aliasList := []
    acList := [] }

theorem settled_twoAddrs : Settled anyHost 177 (forEachListenAddr twoAddrs) atStart :=
  (settled_iff valid_atStart twoAddrs).mpr <| .inr
    ⟨by decide +kernel, by decide +kernel, by decide +kernel, by decide +kernel, by decide +kernel⟩

/-- `LISTEN 10.0.0.1 224.0.0.9` -/
def oneGroup : AccArr :=
  { hostList := [.address 0 [10, 0, 0, 1], .address 0 [224, 0, 0, 9]]
    listenList := [⟨some 0, 1, 1⟩]
    aliasList := []
    acList := [] }

/-- A group is joined, and not recorded. -/
theorem not_settled : ¬ ∀ (sys : Sys) (port : UInt16) (st : State), Valid sys st →
    ∀ acc : AccArr, Settled sys port (forEachListenAddr acc) st := by
  intro h
  have hq := (h anyHost 177 atStart valid_atStart oneGroup).quiet
  revert hq
  decide +kernel

end Kdm.Xdmcp.Listeners
