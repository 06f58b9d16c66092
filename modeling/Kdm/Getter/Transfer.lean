import Kdm.Getter.Load

/-!
# The transfer of the configuration

The config reader adds up the room that the values need, and the daemon fills the room in the
order in which the values arrive.  Both agree as long as the daemon takes every string: one with
`0xffff` characters or more stays in the pipe, and its pointer shows to nothing.

Principal result: `transferred_iff`.
-/

namespace Kdm.Getter

open Codec Ipc

variable {heap : Heap} {nptr nchr : Int}

/-! ## What arrives when the values are within the limits -/

/-- The characters of some strings, with the terminators. -/
def charsOf (l : List Arr) : Nat := (l.map fun s => s.1.length + 1).sum

@[simp] theorem charsOf_cons (s : Arr) (l : List Arr) :
    charsOf (s :: l) = s.1.length + 1 + charsOf l := by
  simp [charsOf]

theorem Value.chars_eq {ty : Ty} (val : Value ty) : val.chars = charsOf val.strings := by
  cases val with
  | num => rfl
  | str s => simp [Value.chars, Value.strings, charsOf]
  | argv l => rfl

def strBytes (s : Arr) : Bytes := bufBytes (s.1 ++ [0])

def strAt (s : Arr) (c : Int) : Stored := storedAt (s.1 ++ [0]) c

def strNext (s : Arr) (c : Int) : Int := c + (s.1.length + 1 : Nat)

/-- There is room for the strings, and all of them are taken. -/
structure StrRoom (nchr : Int) (l : List Arr) (c : Int) : Prop where
  start : 0 ≤ c
  room : c + (charsOf l : Nat) ≤ nchr
  short : ∀ s ∈ l, s.1.length + 1 < 0x10000

theorem StrRoom.next {s : Arr} {l : List Arr} {c : Int} (h : StrRoom nchr (s :: l) c) :
    StrRoom nchr l (strNext s c) := by
  have hroom := h.room
  have hstart := h.start
  rw [charsOf_cons] at hroom
  unfold strNext
  refine ⟨by omega, by omega, fun t ht => h.short t (List.mem_cons_of_mem s ht)⟩

theorem recvStr_sent {s : Arr} {l : List Arr} {c : Int} (h : StrRoom nchr (s :: l) c)
    (rest : Bytes) :
    recvStr nchr c (strBytes s ++ rest) = some ((strAt s c, strNext s c), rest) := by
  have hroom := h.room
  have hs := h.short s List.mem_cons_self
  have hlen : (s.1 ++ [0]).length = s.1.length + 1 := by simp
  rw [charsOf_cons] at hroom
  have hsent : recvStr nchr c (bufBytes (s.1 ++ [0]) ++ rest) =
      some ((storedAt (s.1 ++ [0]) c, c + ((s.1 ++ [0]).length : Int)), rest) :=
    recvBuf_sent movesBy_toInt (by simp) (by rwa [hlen]) h.start
      (by rw [hlen]; push_cast; omega) rest
  rwa [hlen] at hsent

theorem recvStrs_sent {l : List Arr} {c : Int} (h : StrRoom nchr l c) (rest : Bytes) :
    Reader.iterate (recvStr nchr) l.length c ((l.map strBytes).flatten ++ rest) =
      some (threaded strAt strNext l c, rest) :=
  Reader.iterate_sent (I := StrRoom nchr)
    (fun _ _ _ h => ⟨recvStr_sent h, h.next⟩) rest l c h

theorem strNext_sum (l : List Arr) (c : Int) :
    (threaded strAt strNext l c).2 = c + (charsOf l : Nat) :=
  threaded_measure (m := id) (fun _ _ => rfl) l c

/-- What is sent for a value behind its id. -/
def Value.bytes : {ty : Ty} → Value ty → Bytes
  | _, .num n => word n
  | _, .str s => strBytes s
  | _, .argv l => word (BitVec.ofNat 32 l.length) ++ (l.map strBytes).flatten

def Val.bytes (v : Val) : Bytes := word (v.id &&& ~~~C_PRIVATE) ++ v.val.bytes

/-- What the daemon makes of a value. -/
def Value.res : {ty : Ty} → Value ty → Cursor → Res
  | _, .num n, _ => .num n
  | _, .str s, st => .str (strAt s st.cptr)
  | _, .argv l, st => .argv st.pptr (threaded strAt strNext l st.cptr).1

def Val.res (v : Val) (st : Cursor) : BitVec 32 × Res := (v.id &&& ~~~C_PRIVATE, v.val.res st)

def Val.next (v : Val) (st : Cursor) : Cursor :=
  ⟨st.pptr + v.val.ptrs, st.cptr + (v.val.chars : Nat)⟩

theorem sendNStr_strBytes : Config.gSendNStr = fun s => some (strBytes s) := by
  funext s
  unfold strBytes bufBytes
  rw [List.length_append, List.length_singleton]
  exact sendNStr_eq s

theorem sendValue_eq (v : Val) : sendValue v = some v.bytes := by
  obtain ⟨ident, ty, val, h⟩ := v
  unfold sendValue Val.bytes
  cases val with
  | num n => exact congrArg some (by simp [Value.bytes])
  | str s =>
    show sendAll [_, Config.gSendNStr s] = _
    rw [sendNStr_strBytes]
    exact congrArg some (by simp [Value.bytes])
  | argv l =>
    show sendAll (some _ :: some _ :: l.map Config.gSendNStr) = _
    rw [sendNStr_strBytes]
    have hall := sendAll_some (word (ident &&& ~~~C_PRIVATE) :: word (BitVec.ofNat 32 l.length) ::
      l.map strBytes)
    rw [List.map_cons, List.map_cons, List.map_map] at hall
    exact hall

def ValArr.bytes (va : ValArr) : Bytes :=
  word va.nents ++ (word va.nptrs ++ (word 0 ++ (word va.nchars ++
    (va.ents.map Val.bytes).flatten)))

theorem sendValues_eq (va : ValArr) : sendValues va = some va.bytes := by
  unfold sendValues
  rw [show sendValue = fun v => some v.bytes from funext sendValue_eq]
  have hall := sendAll_some ([word va.nents, word va.nptrs, word 0, word va.nchars] ++
    va.ents.map Val.bytes)
  rw [List.map_append, List.map_map] at hall
  exact hall

/-- There is room for the values, and all their strings are taken. -/
structure Room (nptr nchr : Int) (l : List Val) (st : Cursor) : Prop where
  start : 0 ≤ st.cptr
  slots : st.pptr + ((l.map (·.val.ptrs)).sum : Nat) ≤ nptr
  chars : st.cptr + ((l.map (·.val.chars)).sum : Nat) ≤ nchr
  short : ∀ v ∈ l, ∀ s ∈ v.val.strings, s.1.length + 1 < 0x10000

theorem Room.next {v : Val} {l : List Val} {st : Cursor} (h : Room nptr nchr (v :: l) st) :
    Room nptr nchr l (v.next st) := by
  obtain ⟨hstart, hslots, hchars, hshort⟩ := h
  rw [List.map_cons, List.sum_cons] at hslots hchars
  unfold Val.next
  refine ⟨?_, ?_, ?_, fun w hw => hshort w (List.mem_cons_of_mem v hw)⟩ <;>
    dsimp only <;> omega

theorem Room.strRoom {v : Val} {l : List Val} {st : Cursor} (h : Room nptr nchr (v :: l) st) :
    StrRoom nchr v.val.strings st.cptr := by
  obtain ⟨hstart, -, hchars, hshort⟩ := h
  rw [List.map_cons, List.sum_cons, v.val.chars_eq] at hchars
  exact ⟨hstart, by omega, hshort v List.mem_cons_self⟩

theorem loadEntry_sent (hptr : nptr < 2 ^ 31) {v : Val} {l : List Val} {st : Cursor}
    (h : Room nptr nchr (v :: l) st) (rest : Bytes) :
    loadEntry nptr nchr st (v.bytes ++ rest) = some ((v.res st, v.next st), rest) := by
  have hstr := h.strRoom
  have hslots := h.slots
  rw [List.map_cons, List.sum_cons] at hslots
  obtain ⟨ident, ty, val, hty⟩ := v
  have hpub : tyOf (ident &&& ~~~C_PRIVATE) = some ty := by rw [tyOf_public, hty]
  unfold loadEntry Val.bytes Backend.gRecvInt
  rw [List.append_assoc, Reader.bind_some (readInt_word _ _)]
  dsimp only
  rw [hpub]
  cases val with
  | num n =>
    refine Reader.map_eq_some.mpr ⟨n, readInt_word n rest, ?_⟩
    simp [Val.res, Val.next, Value.res, Value.ptrs, Value.chars]
  | str s =>
    refine Reader.map_eq_some.mpr ⟨_, recvStr_sent hstr rest, ?_⟩
    simp [Val.res, Val.next, Value.res, Value.ptrs, Value.chars, strNext]
  | argv strs =>
    have hcount : strs.length < 2 ^ 31 := by
      have hp : (Value.argv strs).ptrs = strs.length + 1 := rfl
      rw [hp] at hslots
      omega
    have hnum : (BitVec.ofNat 32 strs.length).toInt.toNat = strs.length := by
      rw [toInt_of_lt (by rw [toNat_ofNat_of_lt hcount]; exact hcount),
        toNat_ofNat_of_lt hcount, Int.toNat_natCast]
    show (readInt.bind _) (word _ ++ _ ++ rest) = _
    rw [List.append_assoc, Reader.bind_some (readInt_word _ _), hnum, if_pos (by
      have hp : (Value.argv strs).ptrs = strs.length + 1 := rfl
      rw [hp] at hslots
      omega)]
    refine Reader.map_eq_some.mpr ⟨_, recvStrs_sent hstr rest, ?_⟩
    have hsum : (threaded strAt strNext strs st.cptr).2 =
        st.cptr + ((Value.argv strs).chars : Nat) := by
      rw [strNext_sum, Value.chars_eq]
      rfl
    show ((_, Res.argv _ _), (⟨_, (threaded strAt strNext strs st.cptr).2⟩ : Cursor)) = _
    rw [hsum]
    rfl

theorem loadEntries_sent (hptr : nptr < 2 ^ 31) {l : List Val} {st : Cursor}
    (h : Room nptr nchr l st) (rest : Bytes) :
    Reader.iterate (loadEntry nptr nchr) l.length st ((l.map Val.bytes).flatten ++ rest) =
      some (threaded Val.res Val.next l st, rest) :=
  Reader.iterate_sent (I := Room nptr nchr)
    (fun _ _ _ h => ⟨loadEntry_sent hptr h, h.next⟩) rest l st h

theorem res_holds (v : Val) (st : Cursor) : Holds v (v.res st) := by
  obtain ⟨ident, ty, val, hty⟩ := v
  cases val with
  | num n => exact .num
  | str s => exact .str
  | argv l =>
    have hbufs : (threaded strAt strNext l st.cptr).1.map (·.buf) =
        l.map fun s => some (s.1 ++ [0]) :=
      threaded_map (fun s c => show (strAt s c).buf = some (s.1 ++ [0]) from rfl) l _
    exact .argv hbufs

/-! ## What the daemon reads, whatever arrives -/

/-- What an entry that was read is like. -/
structure ReadEntry (nptr nchr : Int) (st : Cursor) (e : BitVec 32 × Res) (st' : Cursor) : Prop where
  start : ∀ slot ptrs, e.2 = .argv slot ptrs → slot = st.pptr ∧ slot + ptrs.length + 1 ≤ nptr
  slots : st'.pptr = st.pptr + e.2.slots
  strings : Rounds (ReadBuf nchr) st.cptr e.2.strings st'.cptr

theorem loadEntry_read {st st' : Cursor} {s r : Bytes} {e : BitVec 32 × Res}
    (h : loadEntry nptr nchr st s = some ((e, st'), r)) : ReadEntry nptr nchr st e st' := by
  unfold loadEntry at h
  obtain ⟨ident, s1, -, h⟩ := Reader.bind_eq_some.mp h
  cases hty : tyOf ident with
  | none =>
    rw [hty] at h
    cases h
    exact ⟨nofun, rfl, rfl⟩
  | some ty =>
    rw [hty] at h
    cases ty with
    | int =>
      obtain ⟨n, -, heq⟩ := Reader.map_eq_some.mp h
      cases heq
      exact ⟨nofun, rfl, rfl⟩
    | str =>
      obtain ⟨⟨p, c⟩, hp, heq⟩ := Reader.map_eq_some.mp h
      cases heq
      exact ⟨nofun, rfl, c, recvBuf_read movesBy_toInt hp, rfl⟩
    | argv =>
      obtain ⟨nu, s2, -, h⟩ := Reader.bind_eq_some.mp h
      split at h
      · rename_i hroom
        obtain ⟨⟨ps, c⟩, hp, heq⟩ := Reader.map_eq_some.mp h
        cases heq
        obtain ⟨hlen, hrounds⟩ := Reader.rounds_of_iterate hp fun _ _ _ _ _ => recvBuf_read movesBy_toInt
        refine ⟨?_, ?_, hrounds⟩
        · rintro slot ptrs ⟨⟩
          rw [hlen]
          exact ⟨rfl, hroom⟩
        · rw [Res.slots, hlen]
          rfl
      · cases h

theorem loadResources_words (a b c d : BitVec 32) (s : Bytes) :
    loadResources heap (word a ++ (word b ++ (word c ++ (word d ++ s)))) =
      if heap.malloc (blockSize a b c d) then
        ((Reader.iterate (loadEntry b.toInt d.toInt) a.toInt.toNat ⟨0, 0⟩).map
          fun r => (⟨a, b, c, d, r.1, r.2⟩ : CfgArr)) s
      else none := by
  unfold loadResources Backend.gRecvInt
  rw [Reader.bind_some (readInt_word _ _), Reader.bind_some (readInt_word _ _),
    Reader.bind_some (readInt_word _ _), Reader.bind_some (readInt_word _ _)]
  split <;> rfl

/-! ## The layout of the block -/

theorem Holds.strings {v : Val} {e : BitVec 32 × Res} (h : Holds v e) :
    e.2.strings.map (·.buf) = v.val.strings.map fun s => some (s.1 ++ [0]) := by
  cases h with
  | num => rfl
  | str => rfl
  | argv hl => exact hl

theorem Holds.slots {v : Val} {e : BitVec 32 × Res} (h : Holds v e) :
    e.2.slots = v.val.ptrs := by
  cases h with
  | num => rfl
  | str => rfl
  | argv hl =>
    have hlen := congrArg List.length hl
    rw [List.length_map, List.length_map] at hlen
    exact congrArg (· + 1) hlen

theorem Holds.buffers {v : Val} {e : BitVec 32 × Res} (h : Holds v e) :
    ∀ p ∈ e.2.strings, ∃ buf, p.buf = some buf := by
  intro p hp
  have hmem : p.buf ∈ e.2.strings.map (·.buf) := List.mem_map_of_mem hp
  rw [h.strings] at hmem
  obtain ⟨s, -, hs⟩ := List.mem_map.mp hmem
  exact ⟨_, hs.symm⟩

/-- An entry that was read and holds its value. -/
theorem ReadEntry.laid {st st' : Cursor} {v : Val} {e : BitVec 32 × Res} (hv : Holds v e)
    (h : ReadEntry nptr nchr st e st') : Laid st e st' where
  start slot ptrs he := (h.start slot ptrs he).1
  slots := h.slots
  chars := (filled_of_rounds hv.buffers h.strings).1

theorem Laid.next {st st' : Cursor} {v : Val} {e : BitVec 32 × Res} (hv : Holds v e)
    (h : Laid st e st') :
    (st'.pptr : Int) = st.pptr + v.val.ptrs ∧ st'.cptr = st.cptr + (v.val.chars : Nat) := by
  refine ⟨?_, ?_⟩
  · rw [h.slots, hv.slots]
    push_cast
    rfl
  · rw [v.val.chars_eq]
    have hmap : e.2.strings.map (·.buf) = (v.val.strings.map fun s => s.1 ++ [0]).map some :=
      hv.strings.trans (List.map_map ..).symm
    rw [h.chars.total hmap, List.map_map]
    simp [charsOf, Function.comp_def]

/-! ## Both ends -/

theorem toInt_count {n : Nat} (h : n < 2 ^ 31) : (BitVec.ofNat 32 n).toInt = n := by
  rw [toInt_of_lt (by rw [toNat_ofNat_of_lt h]; exact h), toNat_ofNat_of_lt h]

theorem toInt_lt (v : BitVec 32) : v.toInt < 2 ^ 31 := by
  rw [BitVec.toInt_eq_toNat_cond]
  have hlt := v.isLt
  split <;> omega

theorem blockSize_counts {n p c : Nat} (hn : n < 2 ^ 31) (hp : p < 2 ^ 31) (hc : c < 2 ^ 31) :
    blockSize (BitVec.ofNat 32 n) (BitVec.ofNat 32 p) 0 (BitVec.ofNat 32 c) = 12 * n + 8 * p + c := by
  unfold blockSize
  rw [toInt_count hn, toInt_count hp, toInt_count hc, show (0 : BitVec 32).toInt = 0 from rfl]
  omega

/-- The room that some entries take. -/
theorem Laid.total {l : List Val} {ents : List (BitVec 32 × Res)} {st st' : Cursor}
    (hl : List.Forall₂ Holds l ents) (h : Rounds Laid st ents st') :
    (st'.pptr : Int) = st.pptr + ((l.map (·.val.ptrs)).sum : Nat) ∧
      st'.cptr = st.cptr + ((l.map (·.val.chars)).sum : Nat) := by
  constructor
  · exact Rounds.measure hl h (fun st => (st.pptr : Int)) (fun v => v.val.ptrs)
      fun _ _ _ _ hv hl => (Laid.next hv hl).1
  · exact Rounds.measure hl h Cursor.cptr (fun v => v.val.chars)
      fun _ _ _ _ hv hl => (Laid.next hv hl).2

/-- An entry that was read and holds its value is inside the block. -/
theorem ReadEntry.inside {conf : CfgArr} {st st' : Cursor} {v : Val} {e : BitVec 32 × Res}
    (hn : 0 ≤ conf.numCfgEnt.toInt) (hp : 0 ≤ conf.nptr.toInt) (hi : conf.nint = 0)
    (hsize : (conf.size : Int) =
      12 * conf.numCfgEnt.toInt + 8 * conf.nptr.toInt + conf.nchr.toInt)
    (hv : Holds v e) (h : ReadEntry conf.nptr.toInt conf.nchr.toInt st e st') :
    conf.Inside e.2 where
  strings p hp' := by
    obtain ⟨hpos, hbuf⟩ := (filled_of_rounds hv.buffers h.strings).2 p hp'
    unfold CfgArr.InBlock CfgArr.charAt
    rw [hi, show (0 : BitVec 32).toInt = 0 from rfl]
    refine ⟨by omega, fun buf hb => ?_⟩
    have hle := (hbuf buf hb).2
    omega
  slots slot ptrs he := by
    have hle := (h.start slot ptrs he).2
    unfold CfgArr.slotAt CfgArr.charAt
    rw [hi, show (0 : BitVec 32).toInt = 0 from rfl]
    push_cast
    omega

/-- **Within the limits the configuration is transferred.** -/
theorem Fits.transferred {va : ValArr} (h : Fits heap va.ents) : Transferred heap va := by
  obtain ⟨hcount, hptrs, hchars, hmem, hstr⟩ := h
  have hn : va.nents.toInt = va.ents.length := by rw [va.nents_eq, toInt_count hcount]
  have hp : va.nptrs.toInt = (va.ents.map (·.val.ptrs)).sum := by
    rw [va.nptrs_eq, toInt_count hptrs]
  have hc : va.nchars.toInt = (va.ents.map (·.val.chars)).sum := by
    rw [va.nchars_eq, toInt_count hchars]
  have hsize : blockSize va.nents va.nptrs 0 va.nchars =
      12 * va.ents.length + 8 * (va.ents.map (·.val.ptrs)).sum +
        (va.ents.map (·.val.chars)).sum := by
    rw [va.nents_eq, va.nptrs_eq, va.nchars_eq, blockSize_counts hcount hptrs hchars]
  have hroom : Room va.nptrs.toInt va.nchars.toInt va.ents ⟨0, 0⟩ :=
    ⟨Int.le_refl 0, by rw [hp]; simp, by rw [hc]; simp, hstr⟩
  have hload := loadEntries_sent (toInt_lt va.nptrs) hroom
  have hvalues : List.Forall₂ Holds va.ents (threaded Val.res Val.next va.ents ⟨0, 0⟩).1 :=
    threaded_forall₂ res_holds va.ents ⟨0, 0⟩
  have hread := (Reader.rounds_of_iterate (hload []) fun _ _ _ _ _ => loadEntry_read).2
  have hlaid : Rounds Laid ⟨0, 0⟩ _ _ := hread.imp fun e he _ _ hr => by
    obtain ⟨v, -, hv⟩ := (exists_of_forall₂ hvalues).1 e he
    exact hr.laid hv
  refine ⟨va.bytes, ⟨va.nents, va.nptrs, 0, va.nchars, _, _⟩, sendValues_eq va, fun rest => ?_,
    hvalues, fun e he => ?_, hlaid, ?_, ?_⟩
  · unfold ValArr.bytes
    simp only [List.append_assoc]
    rw [loadResources_words, if_pos (by rw [hsize]; exact hmem), hn, Int.toNat_natCast]
    exact Reader.map_eq_some.mpr ⟨_, hload rest, rfl⟩
  · obtain ⟨v, -, hv⟩ := (exists_of_forall₂ hvalues).1 e he
    refine Rounds.forall hread (R := fun e => Holds v e → CfgArr.Inside _ e.2)
      (fun st e st' hr hv => hr.inside ?_ ?_ rfl ?_ hv) e he hv
    · show 0 ≤ va.nents.toInt
      omega
    · show 0 ≤ va.nptrs.toInt
      omega
    · show ((blockSize va.nents va.nptrs 0 va.nchars : Nat) : Int) =
        12 * va.nents.toInt + 8 * va.nptrs.toInt + va.nchars.toInt
      rw [hsize]
      push_cast at *
      omega
  · rw [(Laid.total hvalues hlaid).1, hp]
    simp
  · rw [(Laid.total hvalues hlaid).2, hc]
    simp

/-- **The configuration is transferred within the limits only.** -/
theorem Transferred.fits {va : ValArr} (h : Transferred heap va) : Fits heap va.ents := by
  obtain ⟨bytes, conf, hs, hr, hvalues, -, hlaid, hslots, hfull⟩ := h
  cases hs.symm.trans (sendValues_eq va)
  have hr := hr []
  unfold ValArr.bytes at hr
  simp only [List.append_assoc] at hr
  rw [loadResources_words] at hr
  split at hr
  · rename_i hmem
    obtain ⟨⟨ents, fill⟩, hload, heq⟩ := Reader.map_eq_some.mp hr
    cases heq
    obtain ⟨hlen, hread⟩ := Reader.rounds_of_iterate hload fun _ _ _ _ _ => loadEntry_read
    have hcount : va.ents.length < 2 ^ 31 := by
      have hlt := toInt_lt va.nents
      rw [hvalues.length_eq, hlen]
      omega
    obtain ⟨hm, hm'⟩ := Laid.total hvalues hlaid
    have hptrs : (va.ents.map (·.val.ptrs)).sum < 2 ^ 31 := by
      have hlt := toInt_lt va.nptrs
      simp only at hm hslots
      omega
    have hchars : (va.ents.map (·.val.chars)).sum < 2 ^ 31 := by
      have hlt := toInt_lt va.nchars
      simp only at hm' hfull
      omega
    refine ⟨hcount, hptrs, hchars, ?_, fun v hv s hs => ?_⟩
    · rw [va.nents_eq, va.nptrs_eq, va.nchars_eq, blockSize_counts hcount hptrs hchars] at hmem
      exact hmem
    · -- the daemon has read this string, so it is short
      obtain ⟨e, he, hve⟩ := (exists_of_forall₂ hvalues).2 v hv
      have hmem : some (s.1 ++ [0]) ∈ e.2.strings.map (·.buf) := by
        rw [hve.strings]
        exact List.mem_map_of_mem hs
      obtain ⟨p, hp, hbuf⟩ := List.mem_map.mp hmem
      have hshort := Rounds.forall hread (R := fun e => Holds v e → ∀ p ∈ e.2.strings,
        ∀ buf, p.buf = some buf → buf.length < 0x10000)
        (fun st e st' hr hv p hp buf hb =>
          (((filled_of_rounds hv.buffers hr.strings).2 p hp).2 buf hb).1) e he hve p hp _ hbuf
      rwa [List.length_append, List.length_singleton] at hshort
  · cases hr

/-- **Configuration transfer**: whatever is in the configuration file, the values of a request
arrive in a block that they fill exactly when they are within the limits of the daemon. -/
theorem transferred_iff (heap : Heap) (cf : Config) (secs : Sects) (vars : Vars) (req : Request) :
    Transferred heap (getConf cf secs vars req).2 ↔ Fits heap (getConf cf secs vars req).2.ents :=
  ⟨Transferred.fits, Fits.transferred⟩

namespace Sample

/-- The key `PidFile`. -/
def pidFile : Ent where
  id := 0x01000005
  ty := .str
  ptr := .null
  dflt := ⟨[], Nat.two_pow_pos 31⟩
  ty_ok := rfl
  ptr_ok := ⟨rfl, by decide⟩
  dflt_ok _ := rfl

def sections : Sects := ⟨[pidFile], [], [], [], []⟩

/-- A file with a name of `n` letters in it. -/
def named (n : Nat) (h : n < 2 ^ 31) : Config where
  rootsec := [⟨none, [⟨0x01000005, ⟨List.replicate n 97, by rwa [List.length_replicate]⟩⟩]⟩]
  getgrnam _ := none

end Sample

/-- The name has 65535 letters, and the daemon leaves it in the pipe. -/
theorem not_transferred : ∃ cf, ¬ Transferred Ipc.Sample.ample
    (getConf cf Sample.sections {} .gGlobal).2 := by
  obtain ⟨n, hn⟩ : ∃ n, n = 65535 := ⟨_, rfl⟩
  refine ⟨Sample.named n (by omega), fun h => ?_⟩
  have hshort : (List.replicate n (97 : UInt8)).length + 1 < 0x10000 :=
    h.fits.strings _ (List.mem_singleton_self _) _ (List.mem_singleton_self _)
  rw [List.length_replicate, hn] at hshort
  exact absurd hshort (by decide)

end Kdm.Getter
