import Kdm.Xdmcp.Address

/-!
# The hosts that the chooser pings

`choose.c` sends a `QUERY` to a host and a `BROADCAST_QUERY` to the addresses that stand for many
hosts.  `makeSockAddrs` and `addChooserHost` tell them apart with the macros of the system, and
`IN_MULTICAST` wants the address in the byte order of the machine.

* `s_addr`, `IN_MULTICAST` — an IPv4 address as the machine sees it, and the test.
* `addHostaddr` — the list of the hosts, without duplicates.
* `Event.run` — the ways in which a host gets into the list.
* `Sound` — the addresses whose class the test gets right.

Principal result: `classified_iff`.
-/

namespace Kdm.Xdmcp.Targets

/-! ## Classes of addresses -/

/-- An IPv4 address, which is in network byte order, as a number of the machine. -/
def s_addr (little : Bool) (a : Octets 4) : BitVec 32 :=
  match a.1 with
  | [w, x, y, z] =>
    if little then z.toBitVec ++ y.toBitVec ++ x.toBitVec ++ w.toBitVec
    else w.toBitVec ++ x.toBitVec ++ y.toBitVec ++ z.toBitVec
  | _ => 0

def IN_MULTICAST (a : BitVec 32) : Bool := a &&& 0xf0000000#32 == 0xe0000000#32

def IN6_IS_ADDR_MULTICAST (a : Octets 16) : Bool := a.1.head? == some 0xff

inductive OpCode where
  | BROADCAST_QUERY
  | QUERY
  deriving DecidableEq

/-- `struct ifreq` with what the `ioctl`s on it give. -/
structure IfReq where
  addr : Sockaddr
  /-- `IFF_BROADCAST` and `IFF_UP`. -/
  flags : Option (Bool × Bool)
  brdaddr : Option (Octets 4)

/-- The machine: its byte order and its network interfaces. -/
structure Machine where
  little : Bool
  ifconf : Option (List IfReq)

/-- The class that both registration paths give to an address. -/
def opCode (little : Bool) : Sockaddr → OpCode
  | .inet _ addr => if IN_MULTICAST (s_addr little addr) then .BROADCAST_QUERY else .QUERY
  | .inet6 _ _ addr _ => if IN6_IS_ADDR_MULTICAST addr then .BROADCAST_QUERY else .QUERY

/-! ## The list -/

structure HostAddr where
  addr : Sockaddr
  type : OpCode
  deriving DecidableEq

/-- The comparison of `addHostaddr`: family, port and address. -/
def sameAddr : Sockaddr → Sockaddr → Bool
  | .inet port addr, .inet port' addr' => port == port' && addr == addr'
  | .inet6 port _ addr _, .inet6 port' _ addr' _ => port == port' && addr == addr'
  | _, _ => false

def addHostaddr (malloc : Bool) (hosts : List HostAddr) (addr : Sockaddr) (type : OpCode) :
    List HostAddr :=
  if hosts.any fun h => h.type == type && sameAddr h.addr addr then hosts
  else if malloc then ⟨addr, type⟩ :: hosts
  else hosts

theorem xdm_udp_port_length : ([0, 177] : Bytes).length = 2 := rfl

/-- `XDM_UDP_PORT`, in network byte order. -/
def XDM_UDP_PORT : Octets 2 := ⟨[0, 177], xdm_udp_port_length⟩

/-- The broadcast address that `registerBroadcastForPing` takes from an interface. -/
def IfReq.broadcast (ifr : IfReq) : Option (Octets 4) :=
  match ifr.addr with
  | .inet _ _ => if ifr.flags = some (true, true) then ifr.brdaddr else none
  | .inet6 _ _ _ _ => none

def Machine.broadcasts (m : Machine) : List (Octets 4) :=
  (m.ifconf.getD []).filterMap IfReq.broadcast

/-- A host for the list: what the user enters, which is either one of the names for broadcasting or
resolved by `getaddrinfo`, or an entry of Xaccess. -/
inductive Host where
  | broadcast
  | name (ai : List Sockaddr)
  | internet (addr : Octets 4)
  | internet6 (addr : Octets 16) (flowinfo scope : Octets 4)
  | unknown

/-- A registration; `malloc` tells for which addresses there is memory. -/
structure Event where
  host : Host
  malloc : Sockaddr → Bool

/-- The addresses that are classified. -/
def Host.addrs : Host → List Sockaddr
  | .name ai => ai
  | .internet addr => [.inet XDM_UDP_PORT addr]
  | .internet6 addr flowinfo scope => [.inet6 XDM_UDP_PORT flowinfo addr scope]
  | .broadcast | .unknown => []

def registerBroadcastForPing (m : Machine) (malloc : Sockaddr → Bool) (hosts : List HostAddr) :
    List HostAddr :=
  m.broadcasts.foldl (fun hosts a =>
    let in_addr := .inet XDM_UDP_PORT a
    addHostaddr (malloc in_addr) hosts in_addr .BROADCAST_QUERY) hosts

def registerAddrs (m : Machine) (malloc : Sockaddr → Bool) (hosts : List HostAddr)
    (ai : List Sockaddr) : List HostAddr :=
  ai.foldl (fun hosts a => addHostaddr (malloc a) hosts a (opCode m.little a)) hosts

/-- `registerForPing` and `addChooserHost`. -/
def Event.run (m : Machine) (hosts : List HostAddr) (e : Event) : List HostAddr :=
  match e.host with
  | .broadcast => registerBroadcastForPing m e.malloc hosts
  | host => registerAddrs m e.malloc hosts host.addrs

/-! ## The property -/

/-- The address stands for many hosts. -/
def Many (m : Machine) : Sockaddr → Prop
  | .inet _ addr => addr.1.head?.any (fun o => 224 ≤ o && o < 240) = true ∨ addr ∈ m.broadcasts
  | .inet6 _ _ addr _ => addr.1.head? = some 0xff

/-- **The property**: an address has the class `BROADCAST_QUERY` if and only if it stands for many
hosts, and nothing is there twice. -/
structure Classified (m : Machine) (hosts : List HostAddr) : Prop where
  class_iff : ∀ h ∈ hosts, h.type = .BROADCAST_QUERY ↔ Many m h.addr
  once : hosts.Pairwise fun h h' => h.type = h'.type → sameAddr h.addr h'.addr = false

/-- An IPv4 address whose class does not depend on the byte order: the octet that a little-endian
machine looks at, the last one, has to say the same as the first one does, and it has to give away
the broadcast addresses as well. -/
def Sound (m : Machine) : Sockaddr → Prop
  | .inet _ addr =>
    (if m.little then addr.1.getLast? else addr.1.head?).any (fun o => 224 ≤ o && o < 240) = true ↔
      addr.1.head?.any (fun o => 224 ≤ o && o < 240) = true ∨ addr ∈ m.broadcasts
  | .inet6 _ _ _ _ => True

/-! ## The test -/

theorem and_f0_iff (o : UInt8) : o.toBitVec &&& 0xf0#8 = 0xe0#8 ↔ 224 ≤ o ∧ o < 240 := by
  have hall : ∀ n : Fin 256, BitVec.ofFin n &&& 0xf0#8 = 0xe0#8 ↔ 224 ≤ n ∧ n < 240 := by
    decide +kernel
  exact hall o.toBitVec.toFin

/-- The test looks at the highest octet. -/
theorem IN_MULTICAST_append (o : UInt8) (r : BitVec 24) :
    IN_MULTICAST (o.toBitVec ++ r) = (decide (224 ≤ o) && decide (o < 240)) := by
  have hf : (0xf0000000#32 : BitVec 32) = (0xf0#8 ++ 0#24 : BitVec (8 + 24)) := rfl
  have he : (0xe0000000#32 : BitVec 32) = (0xe0#8 ++ 0#24 : BitVec (8 + 24)) := rfl
  unfold IN_MULTICAST
  rw [Bool.eq_iff_iff, beq_iff_eq, hf, he, BitVec.and_append, BitVec.and_zero, Bool.and_eq_true,
    decide_eq_true_eq, decide_eq_true_eq]
  exact (BitVec.append_left_inj _).trans (and_f0_iff o)

theorem IN_MULTICAST_s_addr (little : Bool) (addr : Octets 4) :
    IN_MULTICAST (s_addr little addr) =
      (if little then addr.1.getLast? else addr.1.head?).any fun o => 224 ≤ o && o < 240 := by
  obtain ⟨l, hl⟩ := addr
  match l, hl with
  | [w, x, y, z], _ =>
    cases little with
    | true =>
      show IN_MULTICAST (z.toBitVec ++ y.toBitVec ++ x.toBitVec ++ w.toBitVec) = _
      rw [BitVec.append_assoc, BitVec.append_assoc]
      exact IN_MULTICAST_append z _
    | false =>
      show IN_MULTICAST (w.toBitVec ++ x.toBitVec ++ y.toBitVec ++ z.toBitVec) = _
      rw [BitVec.append_assoc, BitVec.append_assoc]
      exact IN_MULTICAST_append w _

theorem broadcast_query_iff (b : Bool) :
    (if b then OpCode.BROADCAST_QUERY else .QUERY) = .BROADCAST_QUERY ↔ b = true := by
  cases b <;> simp

/-- The class of an address is right if and only if the address is sound. -/
theorem opCode_iff (m : Machine) (addr : Sockaddr) :
    (opCode m.little addr = .BROADCAST_QUERY ↔ Many m addr) ↔ Sound m addr := by
  cases addr with
  | inet port addr =>
    have hop : opCode m.little (.inet port addr) = .BROADCAST_QUERY ↔
        IN_MULTICAST (s_addr m.little addr) = true := broadcast_query_iff _
    rw [hop, IN_MULTICAST_s_addr]
    rfl
  | inet6 port flowinfo addr scope =>
    have hop : opCode m.little (.inet6 port flowinfo addr scope) = .BROADCAST_QUERY ↔
        IN6_IS_ADDR_MULTICAST addr = true := broadcast_query_iff _
    refine iff_of_true (hop.trans ?_) trivial
    exact beq_iff_eq

/-! ## Registrations -/

variable {m : Machine} {malloc : Sockaddr → Bool} {hosts : List HostAddr} {addr addr' : Sockaddr}
  {type : OpCode}

theorem sameAddr_comm (addr addr' : Sockaddr) : sameAddr addr addr' = sameAddr addr' addr := by
  cases addr <;> cases addr' <;> simp [sameAddr, Bool.beq_comm, beq_eq_decide]

theorem many_congr (h : sameAddr addr addr' = true) : Many m addr ↔ Many m addr' := by
  cases addr with
  | inet port addr =>
    cases addr' with
    | inet port' addr' =>
      obtain ⟨_, ha⟩ := Bool.and_eq_true_iff.mp h
      rw [beq_iff_eq.mp ha]
      rfl
    | inet6 port' flowinfo' addr' scope' => cases h
  | inet6 port flowinfo addr scope =>
    cases addr' with
    | inet port' addr' => cases h
    | inet6 port' flowinfo' addr' scope' =>
      obtain ⟨_, ha⟩ := Bool.and_eq_true_iff.mp h
      rw [beq_iff_eq.mp ha]
      rfl

/-- One more host: its class has to be right, if there is memory for it. -/
theorem classified_addHostaddr (mem : Bool) :
    Classified m (addHostaddr mem hosts addr type) ↔
      Classified m hosts ∧ (mem = true → (type = .BROADCAST_QUERY ↔ Many m addr)) := by
  unfold addHostaddr
  split
  · rename_i hany
    obtain ⟨h, hh, hsame⟩ := List.any_eq_true.mp hany
    obtain ⟨htype, haddr⟩ := Bool.and_eq_true_iff.mp hsame
    refine ⟨fun hc => ⟨hc, fun _ => ?_⟩, And.left⟩
    rw [← beq_iff_eq.mp htype, ← many_congr haddr]
    exact hc.class_iff h hh
  · rename_i hany
    cases mem with
    | false => exact ⟨fun hc => ⟨hc, fun h => by cases h⟩, And.left⟩
    | true =>
      have hnew : ∀ h ∈ hosts, type = h.type → sameAddr addr h.addr = false := by
        intro h hh htype
        rw [sameAddr_comm]
        by_contra hne
        refine hany (List.any_eq_true.mpr ⟨h, hh, ?_⟩)
        rw [htype, beq_self_eq_true, Bool.true_and]
        exact (Bool.not_eq_false _).mp hne
      constructor
      · intro hc
        refine ⟨⟨fun h hh => hc.class_iff h (List.mem_cons_of_mem _ hh), ?_⟩, fun _ => ?_⟩
        · exact (List.pairwise_cons.mp hc.once).2
        · exact hc.class_iff _ List.mem_cons_self
      · rintro ⟨hc, hright⟩
        refine ⟨fun h hh => ?_, List.pairwise_cons.mpr ⟨hnew, hc.once⟩⟩
        rcases List.mem_cons.mp hh with rfl | hh
        · exact hright rfl
        · exact hc.class_iff h hh

theorem classified_foldl (type : Sockaddr → OpCode) (ai : List Sockaddr) (hosts : List HostAddr) :
    Classified m (ai.foldl (fun hosts a => addHostaddr (malloc a) hosts a (type a)) hosts) ↔
      Classified m hosts ∧
        ∀ a ∈ ai, malloc a = true → (type a = .BROADCAST_QUERY ↔ Many m a) := by
  induction ai generalizing hosts with
  | nil => simp
  | cons a ai ih => rw [List.foldl_cons, ih, classified_addHostaddr, List.forall_mem_cons, and_assoc]

/-- The broadcast addresses of the interfaces have the right class. -/
theorem classified_broadcast :
    Classified m (registerBroadcastForPing m malloc hosts) ↔ Classified m hosts := by
  have hfold : registerBroadcastForPing m malloc hosts =
      (m.broadcasts.map (Sockaddr.inet XDM_UDP_PORT)).foldl
        (fun hosts a => addHostaddr (malloc a) hosts a .BROADCAST_QUERY) hosts := by
    rw [List.foldl_map]
    rfl
  rw [hfold, classified_foldl fun _ => .BROADCAST_QUERY]
  refine and_iff_left fun a ha _ => ?_
  obtain ⟨b, hb, rfl⟩ := List.mem_map.mp ha
  exact iff_of_true rfl (.inr hb)

theorem classified_run (e : Event) :
    Classified m (e.run m hosts) ↔
      Classified m hosts ∧ ∀ a ∈ e.host.addrs, e.malloc a = true → Sound m a := by
  have haddrs : Classified m (registerAddrs m e.malloc hosts e.host.addrs) ↔
      Classified m hosts ∧ ∀ a ∈ e.host.addrs, e.malloc a = true → Sound m a := by
    unfold registerAddrs
    rw [classified_foldl (opCode m.little)]
    simp only [opCode_iff]
  obtain ⟨host, malloc⟩ := e
  cases host with
  | broadcast =>
    show Classified m (registerBroadcastForPing m malloc hosts) ↔ _
    rw [classified_broadcast]
    exact (and_iff_left fun a ha => by cases ha).symm
  | name ai => exact haddrs
  | internet addr => exact haddrs
  | internet6 addr flowinfo scope => exact haddrs
  | unknown => exact haddrs

/-- **The classes of the hosts**: whatever is registered, they are right if and only if every
address that goes through one of the two paths, and into the list, is sound. -/
theorem classified_iff (m : Machine) (es : List Event) :
    Classified m (es.foldl (Event.run m) []) ↔
      ∀ e ∈ es, ∀ a ∈ e.host.addrs, e.malloc a = true → Sound m a := by
  have hall : ∀ (es : List Event) (hosts : List HostAddr),
      Classified m (es.foldl (Event.run m) hosts) ↔
        Classified m hosts ∧ ∀ e ∈ es, ∀ a ∈ e.host.addrs, e.malloc a = true → Sound m a := by
    intro es
    induction es with
    | nil => simp
    | cons e es ih =>
      intro hosts
      rw [List.foldl_cons, ih, classified_run, List.forall_mem_cons, and_assoc]
  rw [hall]
  exact and_iff_right ⟨fun h hh => absurd hh List.not_mem_nil, List.Pairwise.nil⟩

namespace Sample

def x86 : Machine := ⟨true, some []⟩

/-- The multicast address 239.1.1.7. -/
def group : Event := ⟨.internet ⟨[239, 1, 1, 7], rfl⟩, fun _ => true⟩

end Sample

/-- A multicast address gets a `QUERY` on a little-endian machine. -/
theorem not_classified : ¬ Classified Sample.x86 ([Sample.group].foldl (Event.run Sample.x86) []) := by
  intro h
  have hq := h.class_iff ⟨.inet XDM_UDP_PORT ⟨[239, 1, 1, 7], rfl⟩, .QUERY⟩ (by decide)
  exact absurd (hq.mpr (.inl (by decide))) (by decide)

end Kdm.Xdmcp.Targets
