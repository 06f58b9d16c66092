import Kdm.Ipc.Codec

/-!
# What arrives at the other end

Every function that sends a string or an array puts its length in front (`Puts`), every function
that receives one refuses some lengths (`Takes`), and what is refused stays in the pipe.
`faithful_iff` says for which messages both ends agree.
-/

namespace Kdm.Ipc

open Codec

variable {heap : Heap} {sent : Option Bytes} {pay : Option Bytes} {l s r : Bytes}
  {len v : BitVec 32} {n cap : Nat}

/-! ## Words -/

theorem ofWord_word (v : BitVec 32) : ofWord (word v) = v := by
  apply BitVec.eq_of_toNat_eq
  have hlt := v.isLt
  simp only [ofWord, word, List.foldr_cons, List.foldr_nil, BitVec.toNat_ofNat,
    UInt8.toNat_ofNat']
  omega

@[simp] theorem readInt_word (v : BitVec 32) (rest : Bytes) :
    readInt (word v ++ rest) = some (v, rest) := by
  unfold readInt gRead Reader.map
  rw [readN_append (show (word v).length = 4 from rfl)]
  exact congrArg (fun v => some (v, rest)) (ofWord_word v)

theorem toInt_neg_iff : v.toInt < 0 ↔ 2 ^ 31 ≤ v.toNat := by
  rw [BitVec.toInt_eq_toNat_cond]
  have hlt := v.isLt
  split <;> omega

theorem toInt_of_lt (h : v.toNat < 2 ^ 31) : v.toInt = v.toNat := by
  rw [BitVec.toInt_eq_toNat_cond, if_pos (by omega)]

theorem sizeT_of_lt (h : v.toNat < 2 ^ 31) : sizeT v = v.toNat := by
  unfold sizeT
  rw [toInt_of_lt h]
  omega

/-- A negative `int` is a size that cannot be allocated. -/
theorem sizeT_huge (h : 2 ^ 31 ≤ v.toNat) : 2 ^ 63 ≤ sizeT v := by
  have hneg := toInt_neg_iff.mpr h
  have hlt := v.isLt
  unfold sizeT
  rw [BitVec.toInt_eq_toNat_cond] at hneg ⊢
  split at hneg <;> split <;> omega

theorem toNat_ofNat_of_lt (h : n < 2 ^ 31) : (BitVec.ofNat 32 n).toNat = n := by
  rw [BitVec.toNat_ofNat]
  omega

theorem gWrite_of_lt (h : l.length = n) (hn : n < 2 ^ 31) :
    gWrite l (BitVec.ofNat 32 n) = some l := by
  unfold gWrite
  rw [if_neg (by rw [toInt_neg_iff, toNat_ofNat_of_lt hn]; omega), toNat_ofNat_of_lt hn,
    List.take_of_length_le (Nat.le_of_eq h)]

/-! ## Sending -/

/-- The length that is sent in front of a payload. -/
def lengthOf (payload : Option Bytes) : BitVec 32 :=
  BitVec.ofNat 32 ((payload.map List.length).getD 0)

/-- What a function sends for a payload; none stands for NULL and for an empty array. -/
structure Puts (sent : Option Bytes) (payload : Option Bytes) : Prop where
  front : ∀ b, sent = some b → ∃ t, b = word (lengthOf payload) ++ t
  null : payload = none → sent = some (word 0)
  data : ∀ l, payload = some l → l.length < 2 ^ 31 → sent = some (word (lengthOf payload) ++ l)
  nonempty : payload ≠ some []

/-- The bytes of an array; an empty one is not told from NULL. -/
def arrPayload (data : Arr) : Option Bytes := if data.1 = [] then none else some data.1

def strPayload (buf : CStr) : Bytes := buf.1 ++ [0]

theorem puts_of_gWrite (hl : l ≠ []) :
    Puts ((gWrite l (BitVec.ofNat 32 l.length)).map (word (BitVec.ofNat 32 l.length) ++ ·)) (some l) where
  front b hb := by
    obtain ⟨t, -, rfl⟩ := Option.map_eq_some_iff.mp hb
    exact ⟨t, rfl⟩
  null := nofun
  data l' hl' hlt := by
    cases hl'
    rw [gWrite_of_lt rfl hlt]
    rfl
  nonempty h := hl (Option.some.inj h)

theorem Puts.empty (h : sent = some (word 0)) : Puts sent none where
  front b hb := ⟨[], by cases h.symm.trans hb; rfl⟩
  null _ := h
  data _ := nofun
  nonempty := nofun

theorem sendArr_puts (data : Arr) : Puts (sendArr data) (arrPayload data) := by
  unfold arrPayload sendArr
  split
  · rename_i h
    rw [h]
    exact .empty rfl
  · rename_i h
    exact puts_of_gWrite h

theorem sendStr_puts (buf : Option CStr) : Puts (sendStr buf) (buf.map strPayload) := by
  cases buf with
  | none => exact .empty rfl
  | some s =>
    have hp := puts_of_gWrite (l := s.1 ++ [0]) (by simp)
    rw [List.length_append] at hp
    exact hp

theorem greet_gSendStr_puts (buf : Option CStr) :
    Puts (Greet.gSendStr buf) (buf.map strPayload) := by
  cases buf with
  | none => exact .empty rfl
  | some s => exact sendStr_puts (some s)

theorem sendNStr_eq (buf : Arr) : sendNStr buf =
    some (word (BitVec.ofNat 32 (buf.1.length + 1)) ++ (buf.1 ++ [0])) := by
  unfold sendNStr
  rw [gWrite_of_lt rfl buf.2, BitVec.ofNat_add]
  rfl

theorem sendNStr_puts (buf : Arr) : Puts (sendNStr buf) (some (buf.1 ++ [0])) := by
  have hs : sendNStr buf = some (word (lengthOf (some (buf.1 ++ [0]))) ++ (buf.1 ++ [0])) := by
    unfold lengthOf
    rw [Option.map_some, Option.getD_some, List.length_append, List.length_singleton]
    exact sendNStr_eq buf
  refine ⟨fun b hb => ⟨buf.1 ++ [0], ?_⟩, nofun, fun l hl _ => ?_, by simp⟩
  · exact Option.some.inj (hb.symm.trans hs)
  · cases hl
    exact hs

/-! ## Receiving -/

/-- What a function receives; `ok` are the lengths of what it takes from the pipe. -/
structure Takes (recv : Reader UInt8 (BitVec 32 × Option Bytes)) (ok : Nat → Prop) : Prop where
  bound : ∀ n, ok n → n < 2 ^ 31
  null : ∀ rest, recv (word 0 ++ rest) = some ((0, none), rest)
  data : ∀ l rest, l ≠ [] → ok l.length →
    recv (word (BitVec.ofNat 32 l.length) ++ (l ++ rest)) = some ((BitVec.ofNat 32 l.length, some l), rest)
  only : ∀ len s v l r, recv (word len ++ s) = some ((v, some l), r) → ok l.length

/-- The two ends agree exactly on what the receiver takes. -/
theorem Puts.exact {recv : Reader UInt8 (BitVec 32 × Option Bytes)} {ok : Nat → Prop}
    (hp : Puts sent pay) (ht : Takes recv ok) :
    Exact sent recv (lengthOf pay, pay) (∀ l, pay = some l → ok l.length) where
  ok h := by
    cases hpay : pay with
    | none => exact ⟨word 0, hp.null hpay, ht.null⟩
    | some l =>
      have hl := h l hpay
      refine ⟨_, hp.data l hpay (ht.bound _ hl), fun rest => ?_⟩
      rw [List.append_assoc, hpay]
      exact ht.data l rest (fun he => hp.nonempty (he ▸ hpay)) hl
  bad h b hb rest r hr := by
    refine h fun l hl => ?_
    obtain ⟨t, rfl⟩ := hp.front b hb
    rw [List.append_assoc, hl] at hr
    exact ht.only _ _ _ _ _ hr

/-- The same for the functions that do not return the length. -/
theorem Puts.exact_snd {recv : Reader UInt8 (BitVec 32 × Option Bytes)} {ok : Nat → Prop}
    (hp : Puts sent pay) (ht : Takes recv ok) :
    Exact sent (recv.map (·.2)) pay (∀ l, pay = some l → ok l.length) where
  ok h := by
    obtain ⟨b, hb, hr⟩ := (hp.exact ht).ok h
    exact ⟨b, hb, fun rest => Reader.map_eq_some.mpr ⟨_, hr rest, rfl⟩⟩
  bad h b hb rest r hr := by
    obtain ⟨⟨v, l'⟩, hl', rfl⟩ := Reader.map_eq_some.mp hr
    refine h fun l hl => ?_
    obtain ⟨t, rfl⟩ := hp.front b hb
    rw [List.append_assoc] at hl'
    cases hl
    exact ht.only _ _ _ _ _ hl'

theorem recvArr_takes (refused : BitVec 32 → Bool) (size : BitVec 32 → Nat) {ok : Nat → Prop}
    (hok : ∀ n, ok n → n < 2 ^ 31 ∧ refused (BitVec.ofNat 32 n) = false ∧ heap.malloc n = true)
    (hsize : ∀ v, v.toNat < 2 ^ 31 → size v = v.toNat)
    (honly : ∀ v, refused v = false → heap.malloc (size v) = true → ok (size v)) :
    Takes (recvArr heap refused size) ok where
  bound n h := (hok n h).1
  null rest := by
    unfold recvArr
    rw [Reader.bind_some (readInt_word 0 rest)]
    rfl
  data l rest hl h := by
    obtain ⟨hlt, href, hmal⟩ := hok _ h
    have hn := toNat_ofNat_of_lt hlt
    have hne : (BitVec.ofNat 32 l.length == 0) = false := by
      rw [beq_eq_false_iff_ne]
      intro h0
      rw [h0] at hn
      exact hl (List.length_eq_zero_iff.mp hn.symm)
    unfold recvArr
    rw [Reader.bind_some (readInt_word _ _), hne, href, Bool.false_or, if_neg (by decide),
      hsize _ (by rw [hn]; exact hlt), hn, if_pos hmal]
    exact Reader.map_eq_some.mpr ⟨l, readN_append rfl rest, rfl⟩
  only v s w l r h := by
    unfold recvArr at h
    rw [Reader.bind_some (readInt_word v s)] at h
    split at h
    · cases h
    · rename_i hv
      rw [Bool.or_eq_true, not_or, Bool.not_eq_true, Bool.not_eq_true] at hv
      split at h
      · rename_i hm
        obtain ⟨buf, hbuf, heq⟩ := Reader.map_eq_some.mp h
        cases heq
        rw [length_of_readN hbuf]
        exact honly v hv.2 hm
      · cases h

/-- The lengths that the daemon takes. -/
def Backend.Accepts (heap : Heap) (n : Nat) : Prop := n ≤ 0x10000 ∧ heap.malloc n = true

/-- The lengths that the greeter and the config reader take. -/
def Greet.Accepts (heap : Heap) (n : Nat) : Prop := n < 2 ^ 31 ∧ heap.malloc n = true

/-- The lengths that go into a buffer. -/
def Backend.AcceptsBuf (cap n : Nat) : Prop := n < 0x10000 ∧ n ≤ cap

theorem Backend.gRecvArr_takes (heap : Heap) : Takes (Backend.gRecvArr heap) (Backend.Accepts heap) := by
  refine recvArr_takes (fun len => decide (0x10000 < len.toNat)) (·.toNat) (fun n h => ?_)
    (fun v _ => rfl) (fun v h hm => ?_)
  · have hlt : n < 2 ^ 31 := Nat.lt_of_le_of_lt h.1 (by decide)
    refine ⟨hlt, ?_, h.2⟩
    rw [toNat_ofNat_of_lt hlt]
    exact decide_eq_false (Nat.not_lt.mpr h.1)
  · exact ⟨Nat.not_lt.mp (of_decide_eq_false h), hm⟩

theorem Greet.gRecvArr_takes (heap : Heap) : Takes (Greet.gRecvArr heap) (Greet.Accepts heap) := by
  refine recvArr_takes _ _ (fun n h => ⟨h.1, rfl, h.2⟩) (fun v => sizeT_of_lt) (fun v _ hm => ?_)
  refine ⟨?_, hm⟩
  by_contra hc
  have hlt : v.toNat < 2 ^ 31 := by
    by_contra hv
    rw [heap.huge _ (sizeT_huge (Nat.not_lt.mp hv))] at hm
    cases hm
  rw [sizeT_of_lt hlt] at hc
  exact hc hlt

theorem Backend.gRecvArrBuf_takes (cap : Nat) :
    Takes (Backend.gRecvArrBuf cap) (Backend.AcceptsBuf cap) where
  bound n h := Nat.lt_trans h.1 (by decide)
  null rest := by
    unfold Backend.gRecvArrBuf Backend._gRecvArrBuf
    rw [Reader.bind_some (readInt_word 0 rest)]
    rfl
  data l rest hl h := by
    have hn := toNat_ofNat_of_lt (n := l.length) (Nat.lt_trans h.1 (by decide))
    have hne : (BitVec.ofNat 32 l.length != 0) = true := by
      rw [bne_iff_ne]
      intro h0
      rw [h0] at hn
      exact hl (List.length_eq_zero_iff.mp hn.symm)
    unfold Backend.gRecvArrBuf Backend._gRecvArrBuf
    rw [Reader.bind_some (readInt_word _ _), hne, hn, Bool.true_and, if_pos (decide_eq_true h.1),
      if_pos h.2]
    exact Reader.map_eq_some.mpr ⟨l, readN_append rfl rest, rfl⟩
  only v s w l r h := by
    unfold Backend.gRecvArrBuf Backend._gRecvArrBuf at h
    rw [Reader.bind_some (readInt_word v s)] at h
    split at h
    · rename_i hv
      rw [Bool.and_eq_true, decide_eq_true_eq] at hv
      split at h
      · rename_i hcap
        obtain ⟨buf, hbuf, heq⟩ := Reader.map_eq_some.mp h
        cases heq
        rw [length_of_readN hbuf]
        exact ⟨hv.2, hcap⟩
      · cases h
    · cases h

/-- The copy of the config reader does the same as that of the greeter. -/
theorem Config.gRecvStr_eq (heap : Heap) : Config.gRecvStr heap = Greet.gRecvStr heap := by
  funext s
  unfold Config.gRecvStr Greet.gRecvStr Greet.igRecvArr recvArr Config.gRecvInt
  simp only [Reader.bind, Reader.map, Bool.or_false]
  cases readInt s with
  | none => rfl
  | some p =>
    dsimp only [Option.bind_some]
    split
    · rfl
    · split
      · simp only [Reader.map]
        cases gRead (sizeT p.1) p.2 <;> rfl
      · rfl

/-! ## Argument vectors -/

/-- The array that is received for an argument vector. -/
def argvValue (argv : List CStr) : List (Option Bytes) :=
  argv.map (fun s => some (strPayload s)) ++ [none]

/-- The number of strings is an `int`, there is memory for the pointers, and every string is
taken. -/
structure ArgvOk (heap : Heap) (ok : Nat → Prop) (argv : List CStr) : Prop where
  count : argv.length + 1 < 2 ^ 31
  memory : heap.malloc (8 * (argv.length + 1)) = true
  strings : ∀ s ∈ argv, ok (s.1.length + 1)

section Argv

variable {recvStr : Reader UInt8 (Option Bytes)} {ok : Nat → Prop} {argv : List CStr} {b t : Bytes}

theorem argv_num (argv : List CStr) :
    BitVec.ofNat 32 argv.length + 1 = BitVec.ofNat 32 (argv.length + 1) :=
  (BitVec.ofNat_add ..).symm

/-- The strings of a vector with their terminator are a sequence of strings. -/
theorem strings_exact (hrecv : ∀ buf : Option CStr, Exact (sendStr buf) recvStr (buf.map strPayload)
      (∀ l, buf.map strPayload = some l → ok l.length)) (argv : List CStr) :
    Exact (sendAll ((argv.map some ++ [none]).map Backend.gSendStr))
      (readAll (List.replicate (argv.length + 1) recvStr)) (argvValue argv)
      (∀ s ∈ argv, ok (s.1.length + 1)) := by
  have hall := Exact.all (l := argv.map some ++ [none]) fun buf _ => hrecv buf
  have hr : (argv.map some ++ [none]).map (fun _ => recvStr) =
      List.replicate (argv.length + 1) recvStr := by
    rw [List.map_const', List.length_append, List.length_map, List.length_singleton]
  have hv : (argv.map some ++ [none]).map (Option.map strPayload) = argvValue argv := by
    unfold argvValue
    rw [List.map_append, List.map_map]
    rfl
  rw [hr, hv] at hall
  refine hall.congr ?_
  constructor
  · intro h s hs
    have hok := h (some s) (List.mem_append_left _ (List.mem_map_of_mem hs)) _ rfl
    rwa [strPayload, List.length_append] at hok
  · intro h buf hbuf l hl
    rcases List.mem_append.mp hbuf with hbuf | hbuf
    · obtain ⟨s, hs, rfl⟩ := List.mem_map.mp hbuf
      cases hl
      rw [strPayload, List.length_append]
      exact h s hs
    · cases List.mem_singleton.mp hbuf
      cases hl

theorem gSendArgv_of_lt (h : argv.length + 1 < 2 ^ 31) : Backend.gSendArgv (some argv) =
    (sendAll ((argv.map some ++ [none]).map Backend.gSendStr)).map
      (word (BitVec.ofNat 32 (argv.length + 1)) ++ ·) := by
  have hn := toNat_ofNat_of_lt h
  show Backend._gSendStrArr (BitVec.ofNat 32 argv.length + 1) _ = _
  unfold Backend._gSendStrArr
  rw [argv_num, toInt_of_lt (by rw [hn]; exact h), hn, Int.toNat_natCast,
    List.take_of_length_le (by simp)]

theorem recvStrArr_of_lt (h : argv.length + 1 < 2 ^ 31) (s : Bytes) :
    recvStrArr heap recvStr (word (BitVec.ofNat 32 (argv.length + 1)) ++ s) =
      if heap.malloc (8 * (argv.length + 1)) = true then
        (readAll (List.replicate (argv.length + 1) recvStr)).map
          (fun a => (BitVec.ofNat 32 (argv.length + 1), some a)) s
      else none := by
  have hn := toNat_ofNat_of_lt h
  have hne : (BitVec.ofNat 32 (argv.length + 1) == 0) = false := by
    rw [beq_eq_false_iff_ne]
    intro h0
    rw [h0] at hn
    exact absurd hn (by simp)
  have hlt : (BitVec.ofNat 32 (argv.length + 1)).toNat < 2 ^ 31 := by rw [hn]; exact h
  unfold recvStrArr
  rw [Reader.bind_some (readInt_word _ _), hne, if_neg (by decide), sizeT_of_lt hlt,
    toInt_of_lt hlt, hn, Int.toNat_natCast,
    show (argv.length + 1) * 8 % 2 ^ 64 = 8 * (argv.length + 1) by omega]
  split <;> rfl

/-- A vector within the limits is received. -/
theorem ArgvOk.received (hrecv : ∀ buf : Option CStr, Exact (sendStr buf) recvStr
      (buf.map strPayload) (∀ l, buf.map strPayload = some l → ok l.length))
    (h : ArgvOk heap ok argv) : ∃ b, Backend.gSendArgv (some argv) = some b ∧ ∀ rest,
      recvStrArr heap recvStr (b ++ rest) =
        some ((BitVec.ofNat 32 (argv.length + 1), some (argvValue argv)), rest) := by
  obtain ⟨b, hb, hr⟩ := (strings_exact hrecv argv).ok h.strings
  refine ⟨_, by rw [gSendArgv_of_lt h.count, hb]; rfl, fun rest => ?_⟩
  rw [List.append_assoc, recvStrArr_of_lt h.count, if_pos h.memory]
  exact Reader.map_eq_some.mpr ⟨_, hr rest, rfl⟩

/-- A vector is received within the limits only. -/
theorem argvOk_of_received (hrecv : ∀ buf : Option CStr, Exact (sendStr buf) recvStr
      (buf.map strPayload) (∀ l, buf.map strPayload = some l → ok l.length))
    (hb : Backend.gSendArgv (some argv) = some b) {rest : Bytes}
    (hr : recvStrArr heap recvStr (b ++ rest) = some ((v, some (argvValue argv)), r)) :
    ArgvOk heap ok argv := by
  have hcount : argv.length + 1 < 2 ^ 31 := by
    -- as many strings are received as the `int` in front says
    have hb : (sendAll _).map (word _ ++ ·) = some b := hb
    obtain ⟨t, -, rfl⟩ := Option.map_eq_some_iff.mp hb
    unfold recvStrArr at hr
    rw [List.append_assoc, Reader.bind_some (readInt_word _ _)] at hr
    split at hr
    · cases hr
    split at hr
    · obtain ⟨a, ha, heq⟩ := Reader.map_eq_some.mp hr
      cases heq
      have hlen := length_of_readAll ha
      rw [argvValue, List.length_append, List.length_map, List.length_replicate,
        List.length_singleton] at hlen
      have hlt := (BitVec.ofNat 32 argv.length + 1).isLt
      rw [hlen, BitVec.toInt_eq_toNat_cond]
      split <;> omega
    · cases hr
  rw [gSendArgv_of_lt hcount] at hb
  obtain ⟨t, ht, rfl⟩ := Option.map_eq_some_iff.mp hb
  rw [List.append_assoc, recvStrArr_of_lt hcount] at hr
  split at hr
  · rename_i hm
    refine ⟨hcount, hm, ?_⟩
    obtain ⟨a, ha, heq⟩ := Reader.map_eq_some.mp hr
    by_contra hs
    injection heq with _ heq
    cases heq
    exact (strings_exact hrecv argv).bad hs t ht rest r ha
  · cases hr

theorem gSendArgv_exact (hrecv : ∀ buf : Option CStr, Exact (sendStr buf) recvStr
      (buf.map strPayload) (∀ l, buf.map strPayload = some l → ok l.length))
    (argv : Option (List CStr)) :
    Exact (Backend.gSendArgv argv) (recvStrArr heap recvStr)
        (BitVec.ofNat 32 ((argv.map fun l => l.length + 1).getD 0), argv.map argvValue)
        (∀ l, argv = some l → ArgvOk heap ok l) ∧
      Exact (Backend.gSendArgv argv) ((recvStrArr heap recvStr).map (·.2)) (argv.map argvValue)
        (∀ l, argv = some l → ArgvOk heap ok l) := by
  cases argv with
  | none =>
    have hr (rest : Bytes) : recvStrArr heap recvStr (word 0 ++ rest) = some ((0, none), rest) := by
      unfold recvStrArr
      rw [Reader.bind_some (readInt_word 0 rest)]
      rfl
    exact ⟨⟨fun _ => ⟨word 0, rfl, hr⟩, fun h => absurd nofun h⟩,
      ⟨fun _ => ⟨word 0, rfl, fun rest => Reader.map_eq_some.mpr ⟨_, hr rest, rfl⟩⟩,
        fun h => absurd nofun h⟩⟩
  | some l =>
    refine ⟨⟨fun h => (h l rfl).received hrecv, fun h b hb rest r hr => h ?_⟩,
      ⟨fun h => ?_, fun h b hb rest r hr => h ?_⟩⟩
    · rintro _ ⟨⟩
      exact argvOk_of_received hrecv hb hr
    · obtain ⟨b, hb, hr⟩ := (h l rfl).received hrecv
      exact ⟨b, hb, fun rest => Reader.map_eq_some.mpr ⟨_, hr rest, rfl⟩⟩
    · rintro _ ⟨⟩
      obtain ⟨⟨v, a⟩, ha, rfl⟩ := Reader.map_eq_some.mp hr
      exact argvOk_of_received hrecv hb ha

end Argv

/-! ## Conversations -/

inductive Party where
  | daemon
  | greeter
  | config
  deriving DecidableEq, Repr

/-- What is sent: the argument of `gSendInt`, `gSendStr`, `gSendNStr`, `gSendArr` or
`gSendArgv`. -/
inductive Msg where
  | int (val : BitVec 32)
  | str (buf : Option CStr)
  | nstr (buf : Arr)
  | arr (data : Arr)
  | argv (args : Option (List CStr))

/-- The function that receives it; the buffers have `cap` bytes. -/
inductive Op where
  | int
  | str
  | arr
  | strBuf (cap : Nat)
  | arrBuf (cap : Nat)
  | argv
  | strArr
  deriving DecidableEq, Repr

/-- What the receiving functions return. -/
inductive Val where
  | int (val : BitVec 32)
  | str (buf : Option Bytes)
  | arr (len : BitVec 32) (buf : Option Bytes)
  | argv (args : Option (List (Option Bytes)))
  | strArr (num : BitVec 32) (args : Option (List (Option Bytes)))
  deriving DecidableEq

def Msg.send : Party → Msg → Option Bytes
  | .daemon, .int val => Backend.gSendInt val
  | .daemon, .str buf => Backend.gSendStr buf
  | .daemon, .nstr buf => Backend.gSendNStr buf
  | .daemon, .arr data => Backend.gSendArr data
  | .daemon, .argv args => Backend.gSendArgv args
  | .greeter, .int val => Greet.gSendInt val
  | .greeter, .str buf => Greet.gSendStr buf
  | .greeter, .arr data => Greet.gSendArr data
  | .config, .int val => Config.gSendInt val
  | .config, .str buf => Config.gSendStr buf
  | .config, .nstr buf => Config.gSendNStr buf
  | .config, .arr data => Config.gSendArr data
  | _, _ => none

def Op.recv (heap : Heap) : Party → Op → Reader UInt8 Val
  | .daemon, .int => Backend.gRecvInt.map .int
  | .daemon, .str => (Backend.gRecvStr heap).map .str
  | .daemon, .arr => (Backend.gRecvArr heap).map fun r => .arr r.1 r.2
  | .daemon, .strBuf cap => (Backend.gRecvStrBuf cap).map fun r => .arr r.1 r.2
  | .daemon, .arrBuf cap => (Backend.gRecvArrBuf cap).map fun r => .arr r.1 r.2
  | .daemon, .argv => (Backend.gRecvArgv heap).map .argv
  | .daemon, .strArr => (Backend.gRecvStrArr heap).map fun r => .strArr r.1 r.2
  | .greeter, .int => Greet.gRecvInt.map .int
  | .greeter, .str => (Greet.gRecvStr heap).map .str
  | .greeter, .arr => (Greet.gRecvArr heap).map fun r => .arr r.1 r.2
  | .greeter, .strArr => (Greet.gRecvStrArr heap).map fun r => .strArr r.1 r.2
  | .config, .int => Config.gRecvInt.map .int
  | .config, .str => (Config.gRecvStr heap).map .str
  | _, _ => fun _ => none

/-- The functions that go together, where both ends have them. -/
def Matches (S R : Party) : Msg → Op → Prop
  | .int _, .int | .str _, .str => True
  | .nstr _, .str => S ≠ .greeter
  | .arr _, .arr => R ≠ .config
  | .str _, .strBuf _ | .arr _, .arrBuf _ => R = .daemon
  | .nstr _, .strBuf _ => S ≠ .greeter ∧ R = .daemon
  | .argv _, .argv => S = .daemon ∧ R = .daemon
  | .argv _, .strArr => S = .daemon ∧ R ≠ .config
  | _, _ => False

/-- The bytes of a string or an array. -/
def Msg.payload : Msg → Option Bytes
  | .str buf => buf.map strPayload
  | .nstr buf => some (buf.1 ++ [0])
  | .arr data => arrPayload data
  | _ => none

/-- The value of a message at the other end. -/
def Msg.value : Msg → Op → Val
  | .int val, _ => .int val
  | .argv args, .strArr =>
    .strArr (BitVec.ofNat 32 ((args.map fun l => l.length + 1).getD 0)) (args.map argvValue)
  | .argv args, _ => .argv (args.map argvValue)
  | msg, .str => .str msg.payload
  | msg, _ => .arr (lengthOf msg.payload) msg.payload

def Party.Accepts (heap : Heap) : Party → Nat → Prop
  | .daemon => Backend.Accepts heap
  | .greeter | .config => Greet.Accepts heap

/-- The message is within the limits of the function that receives it. -/
def Msg.Fits (heap : Heap) (R : Party) : Msg → Op → Prop
  | .int _, _ => True
  | .argv args, _ => ∀ l, args = some l → ArgvOk heap (R.Accepts heap) l
  | msg, .strBuf cap | msg, .arrBuf cap =>
    ∀ l, msg.payload = some l → Backend.AcceptsBuf cap l.length
  | msg, _ => ∀ l, msg.payload = some l → R.Accepts heap l.length

/-! ## Both ends -/

theorem sendStr_party (S : Party) (buf : Option CStr) :
    Puts (Msg.send S (.str buf)) (buf.map strPayload) := by
  cases S with
  | greeter => exact greet_gSendStr_puts buf
  | _ => exact sendStr_puts buf

theorem sendNStr_party {S : Party} (hS : S ≠ .greeter) (buf : Arr) :
    Puts (Msg.send S (.nstr buf)) (some (buf.1 ++ [0])) := by
  cases S with
  | greeter => exact absurd rfl hS
  | _ => exact sendNStr_puts buf

theorem sendArr_party (S : Party) (data : Arr) : Puts (Msg.send S (.arr data)) (arrPayload data) := by
  cases S <;> exact sendArr_puts data

theorem arrVal_injective : Function.Injective fun r : BitVec 32 × Option Bytes => Val.arr r.1 r.2 := by
  rintro ⟨a, b⟩ ⟨c, d⟩ h
  cases h
  rfl

theorem strArrVal_injective :
    Function.Injective fun r : BitVec 32 × Option (List (Option Bytes)) => Val.strArr r.1 r.2 := by
  rintro ⟨a, b⟩ ⟨c, d⟩ h
  cases h
  rfl

theorem Puts.str (hp : Puts sent pay) (heap : Heap) (R : Party) :
    Exact sent (Op.str.recv heap R) (.str pay) (∀ l, pay = some l → R.Accepts heap l.length) := by
  have hinj : Function.Injective Val.str := fun _ _ h => Val.str.inj h
  cases R with
  | daemon => exact (hp.exact_snd (Backend.gRecvArr_takes heap)).map hinj
  | greeter => exact (hp.exact_snd (Greet.gRecvArr_takes heap)).map hinj
  | config =>
    have he := (hp.exact_snd (Greet.gRecvArr_takes heap)).map hinj
    rwa [show (Greet.gRecvArr heap).map (·.2) = Config.gRecvStr heap from
      (Config.gRecvStr_eq heap).symm] at he

theorem Puts.arr (hp : Puts sent pay) (heap : Heap) {R : Party} (hR : R ≠ .config) :
    Exact sent (Op.arr.recv heap R) (.arr (lengthOf pay) pay)
      (∀ l, pay = some l → R.Accepts heap l.length) := by
  cases R with
  | daemon => exact (hp.exact (Backend.gRecvArr_takes heap)).map arrVal_injective
  | greeter => exact (hp.exact (Greet.gRecvArr_takes heap)).map arrVal_injective
  | config => exact absurd rfl hR

theorem Puts.buf (hp : Puts sent pay) (cap : Nat) :
    Exact sent ((Backend.gRecvArrBuf cap).map fun r => Val.arr r.1 r.2) (.arr (lengthOf pay) pay)
      (∀ l, pay = some l → Backend.AcceptsBuf cap l.length) :=
  (hp.exact (Backend.gRecvArrBuf_takes cap)).map arrVal_injective

theorem recvStr_exact (heap : Heap) (buf : Option CStr) :
    Exact (sendStr buf) (Backend.gRecvStr heap) (buf.map strPayload)
        (∀ l, buf.map strPayload = some l → Backend.Accepts heap l.length) ∧
      Exact (sendStr buf) (Greet.gRecvStr heap) (buf.map strPayload)
        (∀ l, buf.map strPayload = some l → Greet.Accepts heap l.length) :=
  ⟨(sendStr_puts buf).exact_snd (Backend.gRecvArr_takes heap),
    (sendStr_puts buf).exact_snd (Greet.gRecvArr_takes heap)⟩

theorem strArr_exact (heap : Heap) (argv : Option (List CStr)) {R : Party} (hR : R ≠ .config) :
    Exact (Backend.gSendArgv argv) (Op.strArr.recv heap R) (Msg.value (.argv argv) .strArr)
      (∀ l, argv = some l → ArgvOk heap (R.Accepts heap) l) := by
  cases R with
  | daemon =>
    exact (gSendArgv_exact (fun buf => (recvStr_exact heap buf).1) argv).1.map strArrVal_injective
  | greeter =>
    exact (gSendArgv_exact (fun buf => (recvStr_exact heap buf).2) argv).1.map strArrVal_injective
  | config => exact absurd rfl hR

/-- **A message arrives exactly when it fits.** -/
theorem Matches.exact (heap : Heap) {S R : Party} {msg : Msg} {op : Op} (h : Matches S R msg op) :
    Exact (msg.send S) (op.recv heap R) (msg.value op) (msg.Fits heap R op) := by
  cases msg with
  | int val =>
    cases op with
    | int =>
      have he : Exact (some (word val)) readInt val True :=
        ⟨fun _ => ⟨_, rfl, readInt_word val⟩, fun h => absurd trivial h⟩
      have hm := he.map (f := Val.int) fun _ _ h => Val.int.inj h
      cases S <;> cases R <;> exact hm
    | _ => exact h.elim
  | str buf =>
    cases op with
    | str => exact (sendStr_party S buf).str heap R
    | strBuf cap =>
      cases show R = .daemon from h
      exact (sendStr_party S buf).buf cap
    | _ => exact h.elim
  | nstr buf =>
    cases op with
    | str => exact (sendNStr_party h buf).str heap R
    | strBuf cap =>
      obtain ⟨hS, rfl⟩ : S ≠ .greeter ∧ R = .daemon := h
      exact (sendNStr_party hS buf).buf cap
    | _ => exact h.elim
  | arr data =>
    cases op with
    | arr => exact (sendArr_party S data).arr heap h
    | arrBuf cap =>
      cases show R = .daemon from h
      exact (sendArr_party S data).buf cap
    | _ => exact h.elim
  | argv argv =>
    cases op with
    | argv =>
      obtain ⟨rfl, rfl⟩ : S = .daemon ∧ R = .daemon := h
      exact (gSendArgv_exact (fun buf => (recvStr_exact heap buf).1) argv).2.map
        fun _ _ h => Val.argv.inj h
    | strArr =>
      obtain ⟨rfl, hR⟩ : S = .daemon ∧ R ≠ .config := h
      exact strArr_exact heap argv hR
    | _ => exact h.elim

/-- The messages arrive as they were sent, and no byte too many or too few is consumed. -/
def Agree (heap : Heap) (S R : Party) (talk : List (Msg × Op)) : Prop :=
  Faithful (sendAll (talk.map fun t => t.1.send S)) (readAll (talk.map fun t => t.2.recv heap R))
    (talk.map fun t => t.1.value t.2)

/-- **Faithful codec**: a conversation arrives as it was sent exactly when every string and
every array in it is within the limits of the function that receives it. -/
theorem agree_iff (heap : Heap) {S R : Party} {talk : List (Msg × Op)}
    (h : ∀ t ∈ talk, Matches S R t.1 t.2) :
    Agree heap S R talk ↔ ∀ t ∈ talk, t.1.Fits heap R t.2 :=
  (Exact.all fun t ht => (h t ht).exact heap).faithful_iff

namespace Sample

/-- Memory for everything that `malloc` may give. -/
def ample : Heap := ⟨fun n => decide (n < 2 ^ 63), fun n h => by simpa using h⟩

/-- A string of `n` letters. -/
def letters (n : Nat) : CStr := ⟨List.replicate n 97, by simp⟩

end Sample

/-- The greeter sends a string of 65536 letters, and the daemon leaves it in the pipe. -/
theorem not_agree : ∃ talk, (∀ t ∈ talk, Matches .greeter .daemon t.1 t.2) ∧
    ¬ Agree Sample.ample .greeter .daemon talk := by
  obtain ⟨n, hn⟩ : ∃ n, n = 65536 := ⟨_, rfl⟩
  have hm : ∀ t ∈ [(Msg.str (some (Sample.letters n)), Op.str), (.int 7, .int)],
      Matches .greeter .daemon t.1 t.2 := by
    intro t ht
    rcases List.mem_pair.mp ht with rfl | rfl <;> exact trivial
  refine ⟨_, hm, fun h => ?_⟩
  have hfit := (Exact.all fun t ht => (hm t ht).exact Sample.ample).faithful_iff.mp h _
    List.mem_cons_self
  have hle : (strPayload (Sample.letters n)).length ≤ 0x10000 := (hfit _ rfl).1
  rw [strPayload, List.length_append, Sample.letters, List.length_replicate, hn] at hle
  exact absurd hle (by decide)

/-- A NULL string, a vector and a string arrive. -/
theorem agree_strings : Agree Sample.ample .daemon .daemon
    [(.str none, .str), (.argv (some [Sample.letters 2]), .argv),
      (.str (some (Sample.letters 1)), .strBuf 16)] := by
  have hm : ∀ t ∈ [(Msg.str none, Op.str), (.argv (some [Sample.letters 2]), .argv),
      (.str (some (Sample.letters 1)), .strBuf 16)], Matches .daemon .daemon t.1 t.2 := by
    intro t ht
    simp only [List.mem_cons, List.not_mem_nil, or_false] at ht
    rcases ht with rfl | rfl | rfl
    · exact trivial
    · exact ⟨rfl, rfl⟩
    · exact rfl
  refine (agree_iff Sample.ample hm).mpr fun t ht => ?_
  simp only [List.mem_cons, List.not_mem_nil, or_false] at ht
  rcases ht with rfl | rfl | rfl
  · exact fun _ h => (nomatch h)
  · rintro l ⟨⟩
    refine ⟨by decide, by decide, fun s hs => ?_⟩
    cases List.mem_singleton.mp hs
    exact ⟨by decide, by decide⟩
  · rintro l ⟨⟩
    exact ⟨by decide, by decide⟩

end Kdm.Ipc
