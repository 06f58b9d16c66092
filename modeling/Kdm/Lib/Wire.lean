import Mathlib.Data.List.Basic
import Mathlib.Algebra.Ring.Nat

/-!
# Numbers and arrays on the wire

A reader takes what it needs from the front of a list of bytes.  Numbers are written with the most
significant byte first.

* `Reads r bs a` — `r` takes the bytes `bs`, whatever comes behind them, and gives `a`.
* `Takes r size` — what `r` gives tells how many bytes it took.

Both go along with the sequence of readers and with its repetition, so that a format is put
together from the lemmas of its parts.
-/

namespace Wire

abbrev Reader := StateT (List UInt8) Option

variable {α β : Type} {r : Reader α} {f : α → Reader β} {a : α} {c : β} {bs x y rest : List UInt8}

/-! ## Numbers -/

def write8 (n : UInt8) : List UInt8 := [n]

def write16 (n : UInt16) : List UInt8 := [UInt8.ofNat (n.toNat / 256), UInt8.ofNat n.toNat]

def write32 (n : UInt32) : List UInt8 :=
  write16 (UInt16.ofNat (n.toNat / 65536)) ++ write16 (UInt16.ofNat n.toNat)

def read8 : Reader UInt8
  | [] => none
  | b :: bs => some (b, bs)

def read16 : Reader UInt16 := do
  let high ← read8
  let low ← read8
  return UInt16.ofNat (high.toNat * 256 + low.toNat)

def read32 : Reader UInt32 := do
  let high ← read16
  let low ← read16
  return UInt32.ofNat (high.toNat * 65536 + low.toNat)

/-- So many bytes. -/
def readBytes (n : Nat) : Reader (List UInt8) := fun bs =>
  if n ≤ bs.length then some (bs.take n, bs.drop n) else none

/-- So many of them, one behind the other. -/
def readMany (r : Reader α) : Nat → Reader (List α)
  | 0 => return []
  | n + 1 => do
    let a ← r
    let as ← readMany r n
    return a :: as

@[simp] theorem length_write8 (n : UInt8) : (write8 n).length = 1 := rfl

@[simp] theorem length_write16 (n : UInt16) : (write16 n).length = 2 := rfl

@[simp] theorem length_write32 (n : UInt32) : (write32 n).length = 4 := rfl

/-! ## What a sequence reads -/

/-- `r` takes `bs` and gives `a`. -/
def Reads (r : Reader α) (bs : List UInt8) (a : α) : Prop :=
  ∀ rest, r (bs ++ rest) = some (a, rest)

theorem bind_eq_some (h : (r >>= f) bs = some (c, rest)) :
    ∃ a mid, r bs = some (a, mid) ∧ f a mid = some (c, rest) := by
  obtain ⟨⟨a, mid⟩, hr, hf⟩ := Option.bind_eq_some_iff.mp h
  exact ⟨a, mid, hr, hf⟩

theorem pure_eq_some {b : α} (h : (pure a : Reader α) bs = some (b, rest)) : b = a ∧ rest = bs := by
  cases h
  exact ⟨rfl, rfl⟩

namespace Reads

protected theorem pure (a : α) : Reads (pure a) [] a := fun _ => rfl

protected theorem bind (h : Reads r x a) (hf : Reads (f a) y c) : Reads (r >>= f) (x ++ y) c := by
  intro rest
  show (r (x ++ y ++ rest)).bind (fun p => f p.1 p.2) = some (c, rest)
  rw [List.append_assoc, h]
  exact hf rest

/-- The last reader of a sequence. -/
theorem last (h : Reads r x a) (hf : f a = pure c) : Reads (r >>= f) x c := by
  have hb := h.bind (f := f) (y := []) (hf ▸ Reads.pure c)
  rw [List.append_nil] at hb
  exact hb

theorem read8 (n : UInt8) : Reads read8 (write8 n) n := fun _ => rfl

theorem read16 (n : UInt16) : Reads read16 (write16 n) n := by
  have hn : n.toNat < 2 ^ 16 := n.toNat_lt
  have he : UInt16.ofNat ((UInt8.ofNat (n.toNat / 256)).toNat * 256 +
      (UInt8.ofNat n.toNat).toNat) = n := by
    apply UInt16.toNat_inj.mp
    rw [UInt16.toNat_ofNat', UInt8.toNat_ofNat', UInt8.toNat_ofNat']
    omega
  exact (Reads.read8 _).bind ((Reads.read8 _).last (congrArg pure he))

theorem read32 (n : UInt32) : Reads read32 (write32 n) n := by
  have hn : n.toNat < 2 ^ 32 := n.toNat_lt
  have he : UInt32.ofNat ((UInt16.ofNat (n.toNat / 65536)).toNat * 65536 +
      (UInt16.ofNat n.toNat).toNat) = n := by
    apply UInt32.toNat_inj.mp
    rw [UInt32.toNat_ofNat', UInt16.toNat_ofNat', UInt16.toNat_ofNat']
    omega
  exact (Reads.read16 _).bind ((Reads.read16 _).last (congrArg pure he))

theorem readBytes (bs : List UInt8) : Reads (readBytes bs.length) bs bs := by
  intro rest
  unfold Wire.readBytes
  rw [if_pos (by simp), List.take_left, List.drop_left]

/-- What was written one behind the other is read back in order. -/
theorem readMany {write : α → List UInt8} (as : List α) (h : ∀ a ∈ as, Reads r (write a) a) :
    Reads (readMany r as.length) (as.flatMap write) as := by
  induction as with
  | nil => exact Reads.pure []
  | cons a as ih =>
    obtain ⟨ha, has⟩ := List.forall_mem_cons.mp h
    exact ha.bind ((ih has).last rfl)

end Reads

/-! ## How much a sequence takes -/

/-- What `r` gives takes `size` bytes. -/
def Takes (r : Reader α) (size : α → Nat) : Prop :=
  ∀ bs a rest, r bs = some (a, rest) → bs.length = size a + rest.length

namespace Takes

variable {size : α → Nat}

theorem read8 : Takes read8 fun _ => 1 := by
  intro bs a rest h
  cases bs with
  | nil => cases h
  | cons b bs =>
    cases h
    exact Nat.add_comm _ _

theorem read16 : Takes read16 fun _ => 2 := by
  intro bs a rest h
  obtain ⟨high, mid, hh, h⟩ := bind_eq_some h
  obtain ⟨low, mid', hl, h⟩ := bind_eq_some h
  obtain ⟨_, rfl⟩ := pure_eq_some h
  have h1 : bs.length = 1 + mid.length := Takes.read8 _ _ _ hh
  have h2 : mid.length = 1 + rest.length := Takes.read8 _ _ _ hl
  show bs.length = 2 + rest.length
  omega

theorem readBytes (n : Nat) {a : List UInt8} (h : readBytes n bs = some (a, rest)) :
    a.length = n ∧ bs.length = n + rest.length := by
  unfold Wire.readBytes at h
  split at h
  · rename_i hn
    cases h
    rw [List.length_take, List.length_drop]
    omega
  · cases h

theorem readMany (h : Takes r size) {n : Nat} {as : List α}
    (hr : readMany r n bs = some (as, rest)) :
    as.length = n ∧ bs.length = (as.map size).sum + rest.length := by
  induction n generalizing bs as rest with
  | zero =>
    obtain ⟨rfl, rfl⟩ := pure_eq_some hr
    simp
  | succ n ih =>
    obtain ⟨a, mid, ha, hr⟩ := bind_eq_some hr
    obtain ⟨as', mid', has, hr⟩ := bind_eq_some hr
    obtain ⟨rfl, rfl⟩ := pure_eq_some hr
    obtain ⟨hlen, htake⟩ := ih has
    have hone := h _ _ _ ha
    rw [List.length_cons, List.map_cons, List.sum_cons]
    omega

end Takes

end Wire
