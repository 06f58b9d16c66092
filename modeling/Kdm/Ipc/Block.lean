import Kdm.Ipc.Faithful

/-!
# Strings in one block

The daemon allocates one block for all strings of a configuration and receives them one behind the
other (`cptr += gRecvStrBuf(cptr)`).  A pointer is an offset into the characters of the block.
What would be written outside them has no result.
-/

namespace Kdm.Ipc

open Codec

/-- A pointer into the characters, and what was stored there. -/
structure Stored where
  off : Int
  buf : Option Bytes

/-- `cptr += gRecvArrBuf(cptr)`; the type of the sum decides how far an `int` moves the pointer. -/
def recvBuf (moved : BitVec 32 → Int) (nchr cptr : Int) : Reader UInt8 (Stored × Int) :=
  let room := if 0 ≤ cptr then (nchr - cptr).toNat else 0
  (Backend.gRecvArrBuf room).map fun r => (⟨cptr, r.2⟩, cptr + moved r.1)

/-- `cptr += gRecvStrBuf(cptr)`. -/
def recvStr (nchr cptr : Int) : Reader UInt8 (Stored × Int) := recvBuf BitVec.toInt nchr cptr

/-- The strings are stored one behind the other. -/
def Filled : List Stored → Int → Int → Prop
  | [], a, b => a = b
  | p :: ps, a, b => p.off = a ∧ ∃ buf, p.buf = some buf ∧ Filled ps (a + buf.length) b

theorem Filled.append {ps qs : List Stored} {b c : Int} :
    ∀ {a : Int}, Filled ps a b → Filled qs b c → Filled (ps ++ qs) a c := by
  induction ps with
  | nil =>
    rintro a rfl h
    exact h
  | cons p ps ih =>
    rintro a ⟨hoff, buf, hbuf, hps⟩ h
    exact ⟨hoff, buf, hbuf, ih hps h⟩

theorem Filled.total {l : List Bytes} :
    ∀ {ps : List Stored} {a b : Int}, ps.map (·.buf) = l.map some → Filled ps a b →
      b = a + ((l.map List.length).sum : Nat) := by
  induction l with
  | nil =>
    intro ps a b hmap h
    cases List.map_eq_nil_iff.mp hmap
    cases h
    simp
  | cons s l ih =>
    intro ps a b hmap h
    obtain ⟨p, ps, rfl, hp, hps⟩ := List.map_eq_cons_iff.mp hmap
    obtain ⟨-, buf, hbuf, h⟩ := h
    cases hbuf.symm.trans hp
    rw [ih hps h, List.map_cons, List.sum_cons]
    push_cast
    omega

/-! ## What arrives -/

def bufBytes (l : Bytes) : Bytes := word (BitVec.ofNat 32 l.length) ++ l

def storedAt (l : Bytes) (c : Int) : Stored := ⟨c, some l⟩

/-- A pointer is moved by the length that was received. -/
def MovesBy (moved : BitVec 32 → Int) : Prop := ∀ len, len.toNat < 0x10000 → moved len = len.toNat

theorem movesBy_toInt : MovesBy BitVec.toInt :=
  fun _ h => toInt_of_lt (Nat.lt_trans h (by decide))

variable {moved : BitVec 32 → Int} {nchr c c' : Int} {l s r : Bytes} {p : Stored}

theorem recvBuf_sent (hm : MovesBy moved) (hl : l ≠ []) (hlt : l.length < 0x10000) (hc : 0 ≤ c)
    (hroom : c + (l.length : Int) ≤ nchr) (rest : Bytes) :
    recvBuf moved nchr c (bufBytes l ++ rest) =
      some ((storedAt l c, c + (l.length : Int)), rest) := by
  have htake := (Backend.gRecvArrBuf_takes (nchr - c).toNat).data l rest hl ⟨hlt, by omega⟩
  have hn : (BitVec.ofNat 32 l.length).toNat = l.length :=
    toNat_ofNat_of_lt (Nat.lt_trans hlt (by decide))
  rw [← List.append_assoc] at htake
  unfold recvBuf
  rw [if_pos hc]
  refine Reader.map_eq_some.mpr ⟨_, htake, ?_⟩
  rw [hm _ (by rw [hn]; exact hlt), hn]
  rfl

/-! ## What is read, whatever arrives -/

/-- What a string that was read is like. -/
structure ReadBuf (nchr c : Int) (p : Stored) (c' : Int) : Prop where
  start : p.off = c
  taken : ∀ buf, p.buf = some buf →
    c' = c + buf.length ∧ buf.length < 0x10000 ∧ 0 ≤ c ∧ c + buf.length ≤ nchr

theorem gRecvArrBuf_read {cap : Nat} {len : BitVec 32}
    (h : Backend.gRecvArrBuf cap s = some ((len, some l), r)) :
    len.toNat = l.length ∧ 0 < l.length ∧ l.length < 0x10000 ∧ l.length ≤ cap := by
  unfold Backend.gRecvArrBuf Backend._gRecvArrBuf at h
  obtain ⟨v, s1, -, h⟩ := Reader.bind_eq_some.mp h
  split at h
  · rename_i hv
    rw [Bool.and_eq_true, bne_iff_ne, decide_eq_true_eq] at hv
    have hpos : v.toNat ≠ 0 := fun h0 => hv.1 (BitVec.eq_of_toNat_eq h0)
    split at h
    · rename_i hcap
      obtain ⟨l', hl', heq⟩ := Reader.map_eq_some.mp h
      cases heq
      rw [length_of_readN hl']
      exact ⟨rfl, Nat.pos_of_ne_zero hpos, hv.2, hcap⟩
    · cases h
  · cases h

theorem recvBuf_read (hm : MovesBy moved) (h : recvBuf moved nchr c s = some ((p, c'), r)) :
    ReadBuf nchr c p c' := by
  unfold recvBuf at h
  obtain ⟨⟨len, buf⟩, hbuf, heq⟩ := Reader.map_eq_some.mp h
  cases heq
  refine ⟨rfl, fun l hl => ?_⟩
  cases show buf = some l from hl
  obtain ⟨hlen, hpos, hlt, hcap⟩ := gRecvArrBuf_read hbuf
  rw [hm _ (by rw [hlen]; exact hlt), hlen]
  split at hcap
  · exact ⟨rfl, hlt, by assumption, by omega⟩
  · exact absurd hpos (by omega)

/-- Strings that were read and stored are one behind the other, inside the block. -/
theorem filled_of_rounds {ps : List Stored} :
    ∀ {c c' : Int}, (∀ p ∈ ps, ∃ buf, p.buf = some buf) → Rounds (ReadBuf nchr) c ps c' →
      Filled ps c c' ∧ ∀ p ∈ ps, 0 ≤ p.off ∧
        ∀ buf, p.buf = some buf → buf.length < 0x10000 ∧ p.off + buf.length ≤ nchr := by
  induction ps with
  | nil => exact fun _ h => ⟨h, fun _ hp => absurd hp List.not_mem_nil⟩
  | cons p ps ih =>
    rintro c c' hbufs ⟨c1, ⟨hstart, htaken⟩, hrest⟩
    obtain ⟨buf, hbuf⟩ := hbufs p List.mem_cons_self
    obtain ⟨rfl, hlt, hpos, hle⟩ := htaken buf hbuf
    obtain ⟨hfill, hin⟩ := ih (fun q hq => hbufs q (List.mem_cons_of_mem p hq)) hrest
    refine ⟨⟨hstart, buf, hbuf, hfill⟩, fun q hq => ?_⟩
    rcases List.mem_cons.mp hq with rfl | hq
    · refine ⟨by omega, fun buf' hbuf' => ?_⟩
      cases hbuf.symm.trans hbuf'
      exact ⟨hlt, by omega⟩
    · exact hin q hq

end Kdm.Ipc
