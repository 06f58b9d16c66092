import Mathlib.Data.List.Basic

/-!
# Network addresses

`netaddr.c` for the Linux build (`TCPCONN`, `IPv6`), on the two kinds of addresses that the UDP
sockets of XDMCP deliver.  An address is compared by `addressEqual` only: two addresses are
equal when they agree on family, port and network address, while the flow label and the scope
of an IPv6 address do not count (`addressEqual_iff`).
-/

namespace Kdm.Xdmcp

abbrev Bytes := List UInt8

/-- A C string constant without its terminator. -/
def ascii (s : String) : Bytes := s.toList.map fun c => UInt8.ofNat c.toNat

/-- An array of `n` bytes. -/
abbrev Octets (n : Nat) := { l : Bytes // l.length = n }

/-- `struct sockaddr_in` and `struct sockaddr_in6`. -/
inductive Sockaddr where
  | inet (port : Octets 2) (addr : Octets 4)
  | inet6 (port : Octets 2) (flowinfo : Octets 4) (addr : Octets 16) (scope : Octets 4)
  deriving DecidableEq

def AF_INET : Nat := 2
def AF_INET6 : Nat := 10

def FamilyInternet : UInt16 := 0
def FamilyDECnet : UInt16 := 1
def FamilyInternet6 : UInt16 := 6
def FamilyLocal : UInt16 := 256
def FamilyBroadcast : UInt16 := 0xffff

/-- The `::ffff:0:0/96` prefix. -/
def v4Prefix : Bytes := [0, 0, 0, 0, 0, 0, 0, 0, 0, 0, 0xff, 0xff]

def IN6_IS_ADDR_V4MAPPED (a : Octets 16) : Bool := a.1.take 12 == v4Prefix

/-- `sizeof` of the structure. -/
def Sockaddr.len : Sockaddr → Nat
  | .inet _ _ => 16
  | .inet6 _ _ _ _ => 28

/-- The structure as it lies in the memory of a little-endian machine. -/
def Sockaddr.bytes : Sockaddr → Bytes
  | .inet port addr => [2, 0] ++ port.1 ++ addr.1 ++ List.replicate 8 0
  | .inet6 port flowinfo addr scope => [10, 0] ++ port.1 ++ flowinfo.1 ++ addr.1 ++ scope.1

def netaddrFamily : Sockaddr → Nat
  | .inet _ _ => AF_INET
  | .inet6 _ _ _ _ => AF_INET6

def netaddrPort : Sockaddr → Bytes
  | .inet port _ => port.1
  | .inet6 port _ _ _ => port.1

def netaddrAddress : Sockaddr → Bytes
  | .inet _ addr => addr.1
  | .inet6 _ _ addr _ => if IN6_IS_ADDR_V4MAPPED addr then addr.1.drop 12 else addr.1

/-- The X protocol family of an address, with the network address that goes with it. -/
def convertAddr (saddr : Sockaddr) : UInt16 × Bytes :=
  let addr := netaddrAddress saddr
  match saddr with
  | .inet _ _ => (FamilyInternet, addr)
  | .inet6 _ _ _ _ => (if addr.length = 4 then FamilyInternet else FamilyInternet6, addr)

def addressEqual (a1 a2 : Sockaddr) : Bool :=
  if a1.len ≠ a2.len then false
  else if netaddrFamily a1 ≠ netaddrFamily a2 then false
  else if netaddrPort a1 ≠ netaddrPort a2 then false
  else if netaddrAddress a1 ≠ netaddrAddress a2 then false
  else true

/-! ## What `addressEqual` compares -/

/-- Family, port and network address. -/
def Sockaddr.key (a : Sockaddr) : Nat × Bytes × Bytes :=
  (netaddrFamily a, netaddrPort a, netaddrAddress a)

theorem Sockaddr.len_of_family {a b : Sockaddr} (h : netaddrFamily a = netaddrFamily b) :
    a.len = b.len := by
  cases a <;> cases b <;> first | rfl | cases h

/-- **`addressEqual` is equality of keys.** -/
theorem addressEqual_iff {a b : Sockaddr} : addressEqual a b = true ↔ a.key = b.key := by
  unfold addressEqual Sockaddr.key
  rw [Prod.mk.injEq, Prod.mk.injEq]
  by_cases hf : netaddrFamily a = netaddrFamily b
  · by_cases hp : netaddrPort a = netaddrPort b
    · by_cases ha : netaddrAddress a = netaddrAddress b
      · simp [Sockaddr.len_of_family hf, hf, hp, ha]
      · simp [ha]
    · simp [hp]
  · simp [hf]

/-- The flow label and the scope of an IPv6 address do not count. -/
theorem addressEqual_inet6 (port : Octets 2) (addr : Octets 16) (f f' s s' : Octets 4) :
    addressEqual (.inet6 port f addr s) (.inet6 port f' addr s') = true :=
  addressEqual_iff.mpr rfl

/-- Equal addresses are the same client to the access control and to the chooser. -/
theorem convertAddr_of_key {a b : Sockaddr} (h : a.key = b.key) : convertAddr a = convertAddr b := by
  have hf : netaddrFamily a = netaddrFamily b := congrArg Prod.fst h
  have ha : netaddrAddress a = netaddrAddress b := congrArg (fun k => k.2.2) h
  cases a <;> cases b <;> first
    | (unfold convertAddr; rw [ha]; done)
    | cases hf

theorem convertAddr_snd (a : Sockaddr) : (convertAddr a).2 = netaddrAddress a := by
  cases a <;> rfl

/-- A network address has 4 bytes when its family is `FamilyInternet` and else 16. -/
theorem convertAddr_length (a : Sockaddr) :
    (convertAddr a).1 = FamilyInternet ∧ (convertAddr a).2.length = 4 ∨
      (convertAddr a).1 = FamilyInternet6 ∧ (convertAddr a).2.length = 16 := by
  cases a with
  | inet port addr => exact .inl ⟨rfl, addr.2⟩
  | inet6 port flowinfo addr scope =>
    unfold convertAddr netaddrAddress
    cases hm : IN6_IS_ADDR_V4MAPPED addr
    · exact .inr ⟨by simp [hm, addr.2], by simp [hm, addr.2]⟩
    · exact .inl ⟨by simp [hm, addr.2], by simp [hm, addr.2]⟩

end Kdm.Xdmcp
