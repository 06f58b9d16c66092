import Kdm.Getter.Values
import Kdm.Xauthority.File
import Mathlib.Data.List.Count

/-!
# Names of displays

A display has a name and a class.  Both come from three places: the lists of servers in the
configuration (`addServers` of `resource.c`), the `manage` command (`processCtrl` of `ctrl.c`) and
the MANAGE packet (`xdmcp.c`).  The name is split into a host and a number in three other places:
`mkDSpec` of the config reader, `setAuthNumber` of `auth.c` and `sessreg`.

Principal result: `names_agree_iff`.
-/

namespace Kdm.Getter

open Codec Ipc

/-! ## Where names and classes come from -/

/-- What the daemon keeps of a new display. -/
structure NewDisplay where
  name : Bytes
  class2 : Option Bytes
  deriving DecidableEq

/-- An item of `StaticServers` or `ReserveServers`; the class keeps the separator. -/
def addServer (srv : Bytes) : NewDisplay :=
  if 95 ∈ srv then ⟨srv.takeWhile (· ≠ 95), some (srv.dropWhile (· ≠ 95))⟩ else ⟨srv, none⟩

/-- The `manage` command with a name and maybe a class; the display needs a host. -/
def manageCommand (name : Bytes) (cls : Option Bytes) : Option NewDisplay :=
  if name.head? = some 58 then none
  else some ⟨name, cls.bind fun c => if c = [] then none else some c⟩

/-- The MANAGE packet. -/
def managePacket (name displayClass : Bytes) : NewDisplay :=
  ⟨name, if displayClass.length = 0 then none else some displayClass⟩

/-- What the daemon found out about the address of a display. -/
structure Lookup where
  hostname : Option Bytes
  multiHomed : Bool
  localhost : Bytes
  removeDomainname : Bool
  dotted : Bytes

/-- The decimal digits of a number. -/
def decimal (n : Nat) : Bytes := (Nat.toDigits 10 n).map fun c => UInt8.ofNat c.toNat

/-- The part behind the first point. -/
def domain (host : Bytes) : Option Bytes :=
  if 46 ∈ host then some (host.dropWhile (· ≠ 46)).tail else none

/-- The name of the host of a display, or else its address as text. -/
def hostText (l : Lookup) : Bytes :=
  match l.hostname with
  | none => l.dotted
  | some hostname =>
    if hostname ≠ [] ∧ hostname.head? ≠ some 46 ∧ !l.multiHomed then
      if l.localhost = hostname then ascii "localhost"
      else if l.removeDomainname ∧ (domain hostname).isSome ∧ domain l.localhost = domain hostname then
        hostname.takeWhile (· ≠ 46)
      else hostname
    else l.dotted

def networkAddressToName (l : Lookup) (displayNumber : Nat) : Bytes :=
  hostText l ++ 58 :: decimal displayNumber

/-- The names that can enter the list of displays. -/
inductive Admitted : Bytes → Prop where
  | server (srv : Bytes) (h0 : 0 ∉ srv) : Admitted (addServer srv).name
  | command (name : Bytes) (cls : Option Bytes) (d : NewDisplay) (h0 : 0 ∉ name)
      (h : manageCommand name cls = some d) : Admitted d.name
  | packet (l : Lookup) (displayNumber : Nat) : Admitted (networkAddressToName l displayNumber)

/-! ## Where they are split -/

/-- The index of the first `c`. -/
@[simp] def strchr (c : UInt8) : Bytes → Option Nat
  | [] => none
  | x :: s => if x = c then some 0 else (strchr c s).map (· + 1)

/-- The index of the last `c`. -/
@[simp] def strrchr (c : UInt8) : Bytes → Option Nat
  | [] => none
  | x :: s => ((strrchr c s).map (· + 1)).or (if x = c then some 0 else none)

/-- The loop for the host, over the name and its terminator; it does not stop there. -/
@[simp] def hostLength (dname : Bytes) (dhostl : Nat) : Option Nat :=
  if h : dhostl < (dname ++ [0]).length then
    if (dname ++ [0])[dhostl] = 58 then some dhostl else hostLength dname (dhostl + 1)
  else none
termination_by (dname ++ [0]).length - dhostl
decreasing_by omega

/-- Fails when it reads beyond the name. -/
def mkDSpec (dname dclass : Bytes) : Option DSpec :=
  (hostLength dname 0).map fun dhostl =>
    { dhost := dname.take dhostl, dnum := dname.drop (dhostl + 1), dclass }

theorem strchr_append_of_not_mem {c : UInt8} (s : Bytes) {t : Bytes} (ht : c ∉ t) :
    strchr c (s ++ t) = strchr c s := by
  induction s with
  | nil =>
    rw [List.nil_append]
    induction t with
    | nil => rfl
    | cons x t iht =>
      rw [List.mem_cons, not_or] at ht
      show strchr c (x :: t) = none
      rw [strchr, if_neg (Ne.symm ht.1), iht ht.2]
      rfl
  | cons x s ih => rw [List.cons_append, strchr, strchr, ih]

theorem hostLength_eq (dname : Bytes) (k : Nat) :
    hostLength dname k = (strchr 58 ((dname ++ [0]).drop k)).map (· + k) := by
  induction k using hostLength.induct dname with
  | case1 k h hc =>
    rw [hostLength, dif_pos h, if_pos hc, List.drop_eq_getElem_cons h, strchr, if_pos hc]
    exact congrArg some (Nat.zero_add k).symm
  | case2 k h hc ih =>
    rw [hostLength, dif_pos h, if_neg hc, ih, List.drop_eq_getElem_cons h, strchr, if_neg hc,
      Option.map_map]
    refine congrFun (congrArg _ (funext fun i => ?_)) _
    show i + (k + 1) = i + 1 + k
    omega
  | case3 k h =>
    rw [hostLength, dif_neg h, List.drop_eq_nil_of_le (not_lt.mp h)]
    rfl

/-- The config reader takes the first colon, if there is one. -/
theorem mkDSpec_eq (dname dclass : Bytes) :
    mkDSpec dname dclass =
      (strchr 58 dname).map fun i => ⟨dname.take i, dname.drop (i + 1), dclass⟩ := by
  have h0 : hostLength dname 0 = strchr 58 dname := by
    rw [hostLength_eq, List.drop_zero, strchr_append_of_not_mem dname (by decide)]
    exact Option.map_id'
  rw [mkDSpec, h0]

theorem strrchr_eq_none_iff (c : UInt8) (s : Bytes) : strrchr c s = none ↔ c ∉ s := by
  induction s with
  | nil => simp [strrchr]
  | cons x s ih =>
    rw [strrchr, Option.or_eq_none_iff, Option.map_eq_none_iff, ih, List.mem_cons, not_or]
    by_cases hx : x = c
    · simp [hx]
    · simp [hx, Ne.symm hx]

/-- The first colon is the last one if there is only one. -/
theorem strchr_strrchr_iff (c : UInt8) (s : Bytes) :
    (∃ i, strchr c s = some i ∧ strrchr c s = some i) ↔ s.count c = 1 := by
  induction s with
  | nil => simp [strchr]
  | cons x s ih =>
    by_cases hx : x = c
    · subst hx
      rw [strchr, if_pos rfl, strrchr, if_pos rfl, List.count_cons_self]
      cases hr : strrchr x s with
      | none =>
        have hn : x ∉ s := (strrchr_eq_none_iff x s).mp hr
        simp [List.count_eq_zero_of_not_mem hn]
      | some j =>
        have hm : x ∈ s := by
          by_contra hn
          rw [(strrchr_eq_none_iff x s).mpr hn] at hr
          cases hr
        have hpos : 0 < s.count x := List.count_pos_iff.mpr hm
        simp
        omega
    · rw [strchr, if_neg hx, strrchr, if_neg hx, Option.or_none, List.count_cons_of_ne hx, ← ih]
      simp

theorem strrchr_split {c : UInt8} {s : Bytes} {i : Nat} (h : strrchr c s = some i) :
    ∃ p q, s = p ++ c :: q ∧ c ∉ q ∧ p.length = i := by
  induction s generalizing i with
  | nil => cases h
  | cons x s ih =>
    rw [strrchr] at h
    cases hr : strrchr c s with
    | some j =>
      obtain ⟨p, q, rfl, hq, hp⟩ := ih hr
      rw [hr] at h
      cases h
      exact ⟨x :: p, q, rfl, hq, congrArg (· + 1) hp⟩
    | none =>
      rw [hr, Option.map_none, Option.none_or] at h
      split at h
      · next hx =>
        cases h
        exact ⟨[], s, by rw [hx]; rfl, (strrchr_eq_none_iff c s).mp hr, rfl⟩
      · cases h

/-- The number of an authorization is what stands behind the last colon. -/
theorem displayNumber_eq (name : Bytes) :
    Xauthority.displayNumber name =
      (strrchr 58 name).map fun i => (name.drop (i + 1)).takeWhile (· ≠ 46) := by
  unfold Xauthority.displayNumber
  cases hr : strrchr 58 name with
  | none => rw [if_neg ((strrchr_eq_none_iff 58 name).mp hr)]; rfl
  | some i =>
    obtain ⟨p, q, rfl, hq, rfl⟩ := strrchr_split hr
    have hq' : ∀ a ∈ q.reverse, decide (a ≠ 58) = true := by
      intro a ha
      exact decide_eq_true fun he => hq (he ▸ List.mem_reverse.mp ha)
    have htake : (p ++ 58 :: q).reverse.takeWhile (· ≠ 58) = q.reverse := by
      rw [List.reverse_append, List.reverse_cons, List.append_assoc,
        List.takeWhile_append_of_pos hq']
      simp
    have hdrop : (p ++ 58 :: q).drop (p.length + 1) = q := by
      rw [← List.drop_drop, List.drop_left' rfl]
      rfl
    rw [if_pos (by simp), htake, List.reverse_reverse, Option.map_some, hdrop]

/-- The config reader stays inside the name and splits it at a colon that is the one of
`setAuthNumber` (the last) and of `sessreg` (the first). -/
def Agree (name : Bytes) : Prop :=
  ∃ i, (∀ cls, mkDSpec name cls = some ⟨name.take i, name.drop (i + 1), cls⟩) ∧
    strrchr 58 name = some i ∧ strchr 58 name = some i

/-- **The parts agree about a name exactly if there is one colon in it.** -/
theorem names_agree_iff (name : Bytes) : Agree name ↔ name.count 58 = 1 := by
  rw [← strchr_strrchr_iff]
  constructor
  · rintro ⟨i, -, hr, hf⟩
    exact ⟨i, hf, hr⟩
  · rintro ⟨i, hf, hr⟩
    exact ⟨i, fun cls => by rw [mkDSpec_eq, hf]; rfl, hr, hf⟩

/-- The address `::1` as text, for a display of a host without a name. -/
theorem not_names_agree : ¬ ∀ name, Admitted name → Agree name := by
  intro h
  let l : Lookup := ⟨none, false, [], false, [58, 58, 49]⟩
  have hname : networkAddressToName l 0 = [58, 58, 49, 58, 48] := rfl
  have hadm : Admitted [58, 58, 49, 58, 48] := hname ▸ .packet l 0
  obtain ⟨i, -, hr, hf⟩ := h _ hadm
  have hne : strrchr 58 [58, 58, 49, 58, 48] ≠ strchr 58 [58, 58, 49, 58, 48] := by decide
  exact hne (hr.trans hf.symm)

end Kdm.Getter
