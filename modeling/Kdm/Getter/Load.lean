import Kdm.Getter.Values

/-!
# The configuration in the daemon

`loadResources` gets the number of the values, of the pointers and of the characters first,
allocates one block for all of them, and fills it while it reads the values (`resource.c`).
-/

namespace Kdm.Getter

open Codec Ipc

/-- The value of an entry: an integer, a pointer to a string, or a pointer to a vector of strings
with a NULL behind it. -/
inductive Res where
  | num (num : BitVec 32)
  | str (ptr : Stored)
  | argv (slot : Nat) (ptrs : List Stored)
  | unknown

/-- Where the next pointer and the next string go. -/
structure Cursor where
  pptr : Nat
  cptr : Int

/-- The block, and how far it was filled. -/
structure CfgArr where
  numCfgEnt : BitVec 32
  nptr : BitVec 32
  nint : BitVec 32
  nchr : BitVec 32
  ents : List (BitVec 32 × Res)
  fill : Cursor

/-- The size that is asked for, as a `size_t`. -/
def blockSize (numCfgEnt nptr nint nchr : BitVec 32) : Nat :=
  ((numCfgEnt.toInt * (4 + 8) + nptr.toInt * 8 + nint.toInt * 4 + nchr.toInt) % 2 ^ 64).toNat

def CfgArr.size (conf : CfgArr) : Nat :=
  blockSize conf.numCfgEnt conf.nptr conf.nint conf.nchr

/-- Where the pointers are in the block, behind the values. -/
def CfgArr.slotAt (conf : CfgArr) (slot : Nat) : Int := conf.numCfgEnt.toInt * 8 + slot * 8

/-- Where the characters are, behind the values, the pointers, the ids and the integers. -/
def CfgArr.charAt (conf : CfgArr) (off : Int) : Int :=
  conf.numCfgEnt.toInt * 8 + conf.nptr.toInt * 8 + conf.numCfgEnt.toInt * 4 + conf.nint.toInt * 4 + off

/-- One round of the loop. -/
def loadEntry (nptr nchr : Int) (st : Cursor) : Reader UInt8 ((BitVec 32 × Res) × Cursor) :=
  Backend.gRecvInt.bind fun ident =>
    match tyOf ident with
    | some .int => Backend.gRecvInt.map fun n => ((ident, .num n), st)
    | some .str => (recvStr nchr st.cptr).map fun r => ((ident, .str r.1), ⟨st.pptr, r.2⟩)
    | some .argv => Backend.gRecvInt.bind fun nu =>
        let num := nu.toInt.toNat
        if (st.pptr + num + 1 : Int) ≤ nptr then
          (Reader.iterate (recvStr nchr) num st.cptr).map fun r =>
            ((ident, .argv st.pptr r.1), ⟨st.pptr + num + 1, r.2⟩)
        else fun _ => none
    | none => Reader.pure ((ident, .unknown), st)

def loadResources (heap : Heap) : Reader UInt8 CfgArr :=
  Backend.gRecvInt.bind fun numCfgEnt =>
  Backend.gRecvInt.bind fun nptr =>
  Backend.gRecvInt.bind fun nint =>
  Backend.gRecvInt.bind fun nchr =>
    if heap.malloc (blockSize numCfgEnt nptr nint nchr) then
      (Reader.iterate (loadEntry nptr.toInt nchr.toInt) numCfgEnt.toInt.toNat ⟨0, 0⟩).map
        fun r => ⟨numCfgEnt, nptr, nint, nchr, r.1, r.2⟩
    else fun _ => none

/-! ## What the block must be -/

/-- The strings of an entry. -/
def Res.strings : Res → List Stored
  | .str ptr => [ptr]
  | .argv _ ptrs => ptrs
  | _ => []

/-- The pointer slots that an entry uses. -/
def Res.slots : Res → Nat
  | .argv _ ptrs => ptrs.length + 1
  | _ => 0

/-- An entry has the id and the value that were sent. -/
inductive Holds : Val → BitVec 32 × Res → Prop where
  | num {ident : BitVec 32} {h : tyOf ident = some .int} {n : BitVec 32} :
      Holds ⟨ident, .int, .num n, h⟩ (ident &&& ~~~C_PRIVATE, .num n)
  | str {ident : BitVec 32} {h : tyOf ident = some .str} {s : Arr} {off : Int} :
      Holds ⟨ident, .str, .str s, h⟩ (ident &&& ~~~C_PRIVATE, .str ⟨off, some (s.1 ++ [0])⟩)
  | argv {ident : BitVec 32} {h : tyOf ident = some .argv} {l : List Arr} {slot : Nat}
      {ptrs : List Stored} (hl : ptrs.map (·.buf) = l.map fun s => some (s.1 ++ [0])) :
      Holds ⟨ident, .argv, .argv l, h⟩ (ident &&& ~~~C_PRIVATE, .argv slot ptrs)

/-- A string is inside the block. -/
def CfgArr.InBlock (conf : CfgArr) (p : Stored) : Prop :=
  0 ≤ conf.charAt p.off ∧ ∀ buf, p.buf = some buf → conf.charAt p.off + buf.length ≤ conf.size

/-- All pointers of an entry are inside the block. -/
structure CfgArr.Inside (conf : CfgArr) (res : Res) : Prop where
  strings : ∀ p ∈ res.strings, conf.InBlock p
  slots : ∀ slot ptrs, res = .argv slot ptrs →
    0 ≤ conf.slotAt slot ∧ conf.slotAt (slot + ptrs.length + 1) ≤ conf.charAt 0

/-- An entry is laid out from one place to another. -/
structure Laid (st : Cursor) (e : BitVec 32 × Res) (st' : Cursor) : Prop where
  start : ∀ slot ptrs, e.2 = .argv slot ptrs → slot = st.pptr
  slots : st'.pptr = st.pptr + e.2.slots
  chars : Filled e.2.strings st.cptr st'.cptr

/-- The values arrive, all pointers are inside the block, and the entries fill the pointers and the
characters that were announced, without a gap and without an overlap. -/
structure Exactly (va : ValArr) (conf : CfgArr) : Prop where
  values : List.Forall₂ Holds va.ents conf.ents
  inside : ∀ e ∈ conf.ents, conf.Inside e.2
  laid : Rounds Laid ⟨0, 0⟩ conf.ents conf.fill
  slots : conf.fill.pptr = conf.nptr.toInt
  chars : conf.fill.cptr = conf.nchr.toInt

/-- The configuration is transferred, and nothing behind it is touched. -/
def Transferred (heap : Heap) (va : ValArr) : Prop :=
  ∃ bytes conf, sendValues va = some bytes ∧
    (∀ rest, loadResources heap (bytes ++ rest) = some (conf, rest)) ∧ Exactly va conf

/-- The strings of a value. -/
def Value.strings : {ty : Ty} → Value ty → List Arr
  | _, .num _ => []
  | _, .str s => [s]
  | _, .argv l => l

/-- The values are within the limits of the daemon. -/
structure Fits (heap : Heap) (ents : List Val) : Prop where
  count : ents.length < 2 ^ 31
  ptrs : (ents.map (·.val.ptrs)).sum < 2 ^ 31
  chars : (ents.map (·.val.chars)).sum < 2 ^ 31
  memory : heap.malloc (12 * ents.length + 8 * (ents.map (·.val.ptrs)).sum +
    (ents.map (·.val.chars)).sum)
  strings : ∀ v ∈ ents, ∀ s ∈ v.val.strings, s.1.length + 1 < 0x10000

end Kdm.Getter
