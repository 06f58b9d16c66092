import Kdm.Lib.Abort
import Kdm.Xaccess.Transfer

/-!
# Loading the access database again

`scanAccessDatabase` (`access.c`) on the variables of the daemon.  The old block is freed first, the
counts and the tables are overwritten one by one, and every receive may jump out; what was written
until then stays.

* `Acc` — the counts, and the tables as far as they were received.
* `scan` — the function, with the jump as an error that keeps the state.
* `matchAclEntry`, `listenAddrs` — the later uses; what is not there cannot be read.

Principal result: `failed_sound_iff`.
-/

namespace Kdm.Xaccess.Reload

open Codec Ipc Abort

/-! ## The variables -/

/-- A table: never there, in the block that was freed, or in the block of a given size with as much as
was received. -/
inductive Table (α : Type) where
  | null
  | freed
  | block (size : Nat) (got : List α)

namespace Table

variable {α : Type}

def get (t : Table α) (i : Nat) : Option α :=
  match t with
  | .block _ got => got[i]?
  | _ => none

/-- Everything of the table, if it was received. -/
def whole (t : Table α) : Option (List α) :=
  match t with
  | .block size got => if got.length = size then some got else none
  | _ => none

def free : Table α → Table α
  | .null => .null
  | _ => .freed

def push (a : α) : Table α → Table α
  | .block size got => .block size (got ++ [a])
  | t => t

end Table

/-- `accData`.  The tables are in one block, and `hostList` is its address. -/
structure Acc where
  nHosts : BitVec 16
  nListens : BitVec 16
  nAliases : BitVec 16
  nAcls : BitVec 16
  hostList : Table HostRes
  listenList : Table ListenRes
  aliasList : Table AliasRes
  acList : Table AclRes

/-- The daemon before it has loaded a database. -/
def Acc.initial : Acc := ⟨0, 0, 0, 0, .null, .null, .null, .null⟩

/-- `free(accData->hostList)` -/
def Acc.free (acc : Acc) : Acc :=
  { acc with
    hostList := acc.hostList.free
    listenList := acc.listenList.free
    aliasList := acc.aliasList.free
    acList := acc.acList.free }

/-- The new block, with nothing in it. -/
def Acc.alloc (acc : Acc) : Acc :=
  { acc with
    hostList := .block (times acc.nHosts) []
    listenList := .block (times acc.nListens) []
    aliasList := .block (times acc.nAliases) []
    acList := .block (times acc.nAcls) [] }

/-! ## Loading -/

/-- The variables, and what the config reader will still send. -/
structure St where
  acc : Acc
  input : Bytes

abbrev Load := EStateM Unit St

/-- A receive jumps out when the reader is dead. -/
def receive {α : Type} (recv : Reader UInt8 α) : Load α := fun s =>
  match recv s.input with
  | some (a, rest) => .ok a { s with input := rest }
  | none => .error () s

def update (f : Acc → Acc) : Load Unit := fun s => .ok () { s with acc := f s.acc }

def fail {α : Type} : Load α := fun s => .error () s

/-- The loop over a table; `cptr` goes through the characters. -/
def recvTable {α : Type} (recv : Int → Reader UInt8 (α × Int)) (push : α → Acc → Acc) :
    Nat → Int → Load Int
  | 0, cptr => pure cptr
  | n + 1, cptr => do
    let (a, cptr) ← receive (recv cptr)
    update (push a)
    recvTable recv push n cptr

/-- A reader that does not touch the characters. -/
def plain {α : Type} (recv : Reader UInt8 α) (cptr : Int) : Reader UInt8 (α × Int) :=
  recv.map fun a => (a, cptr)

def Acc.pushHost (h : HostRes) (acc : Acc) : Acc := { acc with hostList := acc.hostList.push h }

def Acc.pushListen (l : ListenRes) (acc : Acc) : Acc :=
  { acc with listenList := acc.listenList.push l }

def Acc.pushAlias (a : AliasRes) (acc : Acc) : Acc :=
  { acc with aliasList := acc.aliasList.push a }

def Acc.pushAcl (e : AclRes) (acc : Acc) : Acc := { acc with acList := acc.acList.push e }

/-- The four loops. -/
def recvLists (nHosts nListens nAliases nAcls : BitVec 16) (nChars : BitVec 32) : Load Unit := do
  let cptr ← recvTable (recvHost nChars.toInt) Acc.pushHost (times nHosts) 0
  let cptr ← recvTable (plain recvListen) Acc.pushListen (times nListens) cptr
  let cptr ← recvTable (recvAlias nChars.toInt) Acc.pushAlias (times nAliases) cptr
  let _ ← recvTable (plain recvAcl) Acc.pushAcl (times nAcls) cptr
  return

/-- `scanAccessDatabase` after `startConfig`. -/
def scan (heap : Heap) : Load Unit := do
  update Acc.free
  let nHosts ← receive recvShort
  update fun acc => { acc with nHosts }
  let nListens ← receive recvShort
  update fun acc => { acc with nListens }
  let nAliases ← receive recvShort
  update fun acc => { acc with nAliases }
  let nAcls ← receive recvShort
  update fun acc => { acc with nAcls }
  let nChars ← receive Backend.gRecvInt
  if heap.malloc (blockSize nHosts nListens nAliases nAcls nChars) then
    update Acc.alloc
    recvLists nHosts nListens nAliases nAcls nChars
  else
    update fun acc => { acc with hostList := .null }
    fail

/-! ## Later uses -/

/-- The loop of `matchAclEntry`; an entry may fit the client or not. -/
def walk (acList : Table AclRes) (fits : AclRes → Option Bool) : Nat → Nat → Option (Option AclRes)
  | _, 0 => some none
  | i, ne + 1 =>
    (acList.get i).bind fun e =>
      (fits e).bind fun b => if b then some (some e) else walk acList fits (i + 1) ne

/-- Every query, forward and choice starts with this.  A negative count is counted down, too. -/
def matchAclEntry (acc : Acc) (fits : AclRes → Option Bool) : Option (Option AclRes) :=
  walk acc.acList fits 0 (acc.nAcls.signExtend 32).toNat

/-- `forEachListenAddr`: the hosts of the interfaces, and of their multicast groups. -/
def listenAddrs (acc : Acc) : Option (List (Option HostRes × List HostRes)) :=
  (List.range (times acc.nListens)).mapM fun i => do
    let l ← acc.listenList.get i
    let ifc ← if l.iface.toInt < 0 then some none else (acc.hostList.get l.iface.toNat).map some
    let mcs ← (List.range (times l.nmcasts)).mapM fun j =>
      acc.hostList.get (l.mcasts.toInt + j).toNat
    return (ifc, mcs)

/-- The database is empty: nobody gets in, and nothing is listened on. -/
def Denies (acc : Acc) : Prop :=
  (∀ fits, matchAclEntry acc fits = some none) ∧ listenAddrs acc = some []

/-- The tables of a database that is there as a whole. -/
def Acc.whole (acc : Acc) :
    Option (List HostRes × List ListenRes × List AliasRes × List AclRes) := do
  return (← acc.hostList.whole, ← acc.listenList.whole, ← acc.aliasList.whole, ← acc.acList.whole)

/-- After a load that failed: the previous database as a whole, or an empty one. -/
def Sound (before after : Acc) : Prop :=
  (∃ db, before.whole = some db ∧ after.whole = some db) ∨ Denies after

/-! ## Which states are empty -/

theorem matchAclEntry_zero {acc : Acc} (h : acc.nAcls = 0) (fits : AclRes → Option Bool) :
    matchAclEntry acc fits = some none := by
  unfold matchAclEntry
  rw [h]
  rfl

theorem denies_iff (acc : Acc) : Denies acc ↔ times acc.nListens = 0 ∧ acc.nAcls = 0 := by
  constructor
  · rintro ⟨hq, hl⟩
    constructor
    · unfold listenAddrs at hl
      cases hn : times acc.nListens with
      | zero => rfl
      | succ n =>
        -- the first entry is read, or cannot be
        rw [hn, List.range_succ_eq_map, List.mapM_cons] at hl
        obtain ⟨b, -, hl⟩ := Option.bind_eq_some_iff.mp hl
        obtain ⟨bs, -, hl⟩ := Option.bind_eq_some_iff.mp hl
        cases hl
    · by_contra hne
      have hpos : (acc.nAcls.signExtend 32).toNat ≠ 0 := by
        intro h0
        have hz : acc.nAcls.signExtend 32 = 0 := BitVec.eq_of_toNat_eq h0
        have hi := BitVec.toInt_signExtend_of_le (x := acc.nAcls) (by decide : 16 ≤ 32)
        rw [hz] at hi
        exact hne (BitVec.eq_of_toInt_eq hi.symm)
      obtain ⟨k, hk⟩ := Nat.exists_eq_succ_of_ne_zero hpos
      have hfit := hq fun _ => some true
      unfold matchAclEntry at hfit
      rw [hk, walk] at hfit
      cases hg : acc.acList.get 0 with
      | none =>
        rw [hg] at hfit
        cases hfit
      | some e =>
        rw [hg] at hfit
        cases hfit
  · rintro ⟨hl, hq⟩
    refine ⟨matchAclEntry_zero hq, ?_⟩
    unfold listenAddrs
    rw [hl]
    rfl

/-! ## What a load leaves -/

section Bind

variable {α β : Type} {s : St}

theorem bind_ok {m : Load α} {f : α → Load β} {a : α} {s' : St} (h : m s = .ok a s') :
    (m >>= f) s = f a s' := by
  show EStateM.bind m f s = _
  unfold EStateM.bind
  rw [h]

theorem bind_error {m : Load α} {f : α → Load β} {s' : St} (h : m s = .error () s') :
    (m >>= f) s = .error () s' := by
  show EStateM.bind m f s = _
  unfold EStateM.bind
  rw [h]

theorem receive_some {recv : Reader UInt8 α} {a : α} {rest : Bytes}
    (h : recv s.input = some (a, rest)) (f : α → Load β) :
    (receive recv >>= f) s = f a { s with input := rest } := by
  apply bind_ok
  unfold receive
  rw [h]

theorem receive_none {recv : Reader UInt8 α} (h : recv s.input = none) (f : α → Load β) :
    (receive recv >>= f) s = .error () s := by
  apply bind_error
  unfold receive
  rw [h]

theorem update_bind (g : Acc → Acc) (f : Unit → Load β) :
    (update g >>= f) s = f () { s with acc := g s.acc } := rfl

end Bind

section Table

variable {α : Type} {recv : Int → Reader UInt8 (α × Int)} (push : α → Acc → Acc)
  (set : List α → Acc) (hpush : ∀ a got, push a (set got) = set (got ++ [a]))

include hpush

theorem recvTable_ok {n : Nat} {cptr cptr' : Int} {input rest : Bytes} {as : List α}
    (h : Reader.iterate recv n cptr input = some ((as, cptr'), rest)) (got : List α) :
    recvTable recv push n cptr ⟨set got, input⟩ = .ok cptr' ⟨set (got ++ as), rest⟩ := by
  induction n generalizing cptr input as got with
  | zero =>
    cases h
    rw [List.append_nil]
    rfl
  | succ n ih =>
    obtain ⟨⟨a, c⟩, s₁, ha, h⟩ := Reader.bind_eq_some.mp h
    obtain ⟨⟨as', c'⟩, has, he⟩ := Reader.map_eq_some.mp h
    cases he
    rw [recvTable, receive_some ha]
    dsimp only
    rw [update_bind]
    dsimp only
    rw [hpush, ih has, List.append_assoc]
    rfl

theorem recvTable_failed {n : Nat} {cptr : Int} {input : Bytes}
    (h : Reader.iterate recv n cptr input = none) (got : List α) :
    ∃ as rest, recvTable recv push n cptr ⟨set got, input⟩ = .error () ⟨set (got ++ as), rest⟩ ∧
      as.length < n := by
  induction n generalizing cptr input got with
  | zero => cases h
  | succ n ih =>
    rw [recvTable]
    cases hr : recv cptr input with
    | none =>
      rw [receive_none hr]
      exact ⟨[], input, by rw [List.append_nil], Nat.succ_pos n⟩
    | some r =>
      obtain ⟨⟨a, c⟩, s₁⟩ := r
      have hrest : Reader.iterate recv n c s₁ = none := by
        rw [Reader.iterate, Reader.bind_some hr] at h
        exact Option.map_eq_none_iff.mp h
      obtain ⟨as, rest, he, hlt⟩ := ih hrest (got ++ [a])
      rw [receive_some hr]
      dsimp only
      rw [update_bind]
      dsimp only
      rw [hpush, he, List.append_assoc]
      exact ⟨a :: as, rest, rfl, Nat.succ_lt_succ hlt⟩

end Table

/-- A reader that does not touch the characters is called once for each entry. -/
theorem iterate_plain {α : Type} (recv : Reader UInt8 α) (n : Nat) (cptr : Int) (input : Bytes) :
    Reader.iterate (plain recv) n cptr input =
      (readAll (List.replicate n recv)).map (fun as => (as, cptr)) input := by
  induction n generalizing input with
  | zero => rfl
  | succ n ih =>
    rw [Reader.iterate, List.replicate_succ, readAll]
    cases hr : recv input with
    | none =>
      show Option.bind (Option.map _ (recv input)) _ = Option.map _ (Option.bind (recv input) _)
      rw [hr]
      rfl
    | some r =>
      show Option.bind (Option.map _ (recv input)) _ = Option.map _ (Option.bind (recv input) _)
      rw [hr]
      show Option.map _ (Reader.iterate (plain recv) n cptr r.2) = _
      rw [ih]
      show Option.map _ (Option.map _ (readAll _ r.2)) = Option.map _ (Option.map _ (readAll _ r.2))
      rw [Option.map_map, Option.map_map]
      rfl

/-- The variables after the allocation, with what was received since. -/
def received (acc : Acc) (hosts : List HostRes) (listens : List ListenRes)
    (aliases : List AliasRes) (acls : List AclRes) : Acc :=
  { acc with
    hostList := .block (times acc.nHosts) hosts
    listenList := .block (times acc.nListens) listens
    aliasList := .block (times acc.nAliases) aliases
    acList := .block (times acc.nAcls) acls }

theorem whole_block {α : Type} {size : Nat} {got : List α} (h : got.length < size) :
    (Table.block size got).whole = none :=
  if_neg (Nat.ne_of_lt h)

section Whole

variable {acc : Acc}

theorem whole_hosts (h : acc.hostList.whole = none) : acc.whole = none := by
  unfold Acc.whole
  rw [h]
  rfl

theorem whole_listens (h : acc.listenList.whole = none) : acc.whole = none := by
  unfold Acc.whole
  rw [h]
  cases acc.hostList.whole <;> rfl

theorem whole_aliases (h : acc.aliasList.whole = none) : acc.whole = none := by
  unfold Acc.whole
  rw [h]
  cases acc.hostList.whole <;> cases acc.listenList.whole <;> rfl

theorem whole_acls (h : acc.acList.whole = none) : acc.whole = none := by
  unfold Acc.whole
  rw [h]
  cases acc.hostList.whole <;> cases acc.listenList.whole <;> cases acc.aliasList.whole <;> rfl

theorem free_whole {α : Type} (t : Table α) : t.free.whole = none := by
  cases t <;> rfl

end Whole

/-- **The loops fill the tables with what the reader of the tables gets.** -/
theorem recvLists_ok (acc : Acc) {nChars : BitVec 32} {input rest : Bytes} {data : AccData}
    (h : recvTables acc.nHosts acc.nListens acc.nAliases acc.nAcls nChars input =
      some (data, rest)) :
    recvLists acc.nHosts acc.nListens acc.nAliases acc.nAcls nChars ⟨acc.alloc, input⟩ =
      .ok () ⟨received acc data.hostList data.listenList data.aliasList data.acList, rest⟩ := by
  obtain ⟨⟨hosts, c₁⟩, s₁, h₁, h⟩ := Reader.bind_eq_some.mp h
  obtain ⟨listens, s₂, h₂, h⟩ := Reader.bind_eq_some.mp h
  obtain ⟨⟨aliases, c₃⟩, s₃, h₃, h⟩ := Reader.bind_eq_some.mp h
  obtain ⟨acls, h₄, rfl⟩ := Reader.map_eq_some.mp h
  have hl : Reader.iterate (plain recvListen) (times acc.nListens) c₁ s₁ =
      some ((listens, c₁), s₂) := by
    rw [iterate_plain]
    exact Reader.map_eq_some.mpr ⟨_, h₂, rfl⟩
  have ha : Reader.iterate (plain recvAcl) (times acc.nAcls) c₃ s₃ = some ((acls, c₃), rest) := by
    rw [iterate_plain]
    exact Reader.map_eq_some.mpr ⟨_, h₄, rfl⟩
  have e₁ := recvTable_ok Acc.pushHost (received acc · [] [] []) (fun _ _ => rfl) h₁ []
  have e₂ := recvTable_ok Acc.pushListen (received acc hosts · [] []) (fun _ _ => rfl) hl []
  have e₃ := recvTable_ok Acc.pushAlias (received acc hosts listens · []) (fun _ _ => rfl) h₃ []
  have e₄ := recvTable_ok Acc.pushAcl (received acc hosts listens aliases) (fun _ _ => rfl) ha []
  unfold recvLists
  show (recvTable _ _ _ 0 >>= _) ⟨received acc [] [] [] [], input⟩ = _
  rw [bind_ok e₁, List.nil_append, bind_ok e₂, List.nil_append, bind_ok e₃, List.nil_append,
    bind_ok e₄]
  rfl

/-- **A table that is cut off is not whole**, and the counts are as they were received. -/
theorem recvLists_failed (acc : Acc) {nChars : BitVec 32} {input : Bytes}
    (h : recvTables acc.nHosts acc.nListens acc.nAliases acc.nAcls nChars input = none) :
    ∃ after rest,
      recvLists acc.nHosts acc.nListens acc.nAliases acc.nAcls nChars ⟨acc.alloc, input⟩ =
        .error () ⟨after, rest⟩ ∧
      after.nListens = acc.nListens ∧ after.nAcls = acc.nAcls ∧ after.whole = none := by
  unfold recvLists
  show ∃ after rest, (recvTable _ _ _ 0 >>= _) ⟨received acc [] [] [] [], input⟩ = _ ∧ _
  cases h₁ : Reader.iterate (recvHost nChars.toInt) (times acc.nHosts) 0 input with
  | none =>
    obtain ⟨as, rest, he, hlt⟩ :=
      recvTable_failed Acc.pushHost (received acc · [] [] []) (fun _ _ => rfl) h₁ []
    exact ⟨_, rest, bind_error he, rfl, rfl, whole_hosts (whole_block hlt)⟩
  | some r =>
    obtain ⟨⟨hosts, c₁⟩, s₁⟩ := r
    have e₁ := recvTable_ok Acc.pushHost (received acc · [] [] []) (fun _ _ => rfl) h₁ []
    rw [bind_ok e₁, List.nil_append]
    unfold recvTables at h
    rw [Reader.bind_some h₁] at h
    cases h₂ : Reader.iterate (plain recvListen) (times acc.nListens) c₁ s₁ with
    | none =>
      obtain ⟨as, rest, he, hlt⟩ :=
        recvTable_failed Acc.pushListen (received acc hosts · [] []) (fun _ _ => rfl) h₂ []
      exact ⟨_, rest, bind_error he, rfl, rfl, whole_listens (whole_block hlt)⟩
    | some r =>
      obtain ⟨⟨listens, c₂⟩, s₂⟩ := r
      have e₂ := recvTable_ok Acc.pushListen (received acc hosts · [] []) (fun _ _ => rfl) h₂ []
      rw [bind_ok e₂, List.nil_append]
      rw [iterate_plain] at h₂
      obtain ⟨_, hl, he⟩ := Reader.map_eq_some.mp h₂
      cases he
      rw [Reader.bind_some hl] at h
      cases h₃ : Reader.iterate (recvAlias nChars.toInt) (times acc.nAliases) c₁ s₂ with
      | none =>
        obtain ⟨as, rest, he, hlt⟩ :=
          recvTable_failed Acc.pushAlias (received acc hosts listens · []) (fun _ _ => rfl) h₃ []
        exact ⟨_, rest, bind_error he, rfl, rfl, whole_aliases (whole_block hlt)⟩
      | some r =>
        obtain ⟨⟨aliases, c₃⟩, s₃⟩ := r
        have e₃ :=
          recvTable_ok Acc.pushAlias (received acc hosts listens · []) (fun _ _ => rfl) h₃ []
        rw [bind_ok e₃, List.nil_append]
        rw [Reader.bind_some h₃] at h
        have h₄ : Reader.iterate (plain recvAcl) (times acc.nAcls) c₃ s₃ = none := by
          rw [iterate_plain]
          exact Option.map_eq_none_iff.mpr (Option.map_eq_none_iff.mp h)
        obtain ⟨as, rest, he, hlt⟩ :=
          recvTable_failed Acc.pushAcl (received acc hosts listens aliases) (fun _ _ => rfl) h₄ []
        exact ⟨_, rest, bind_error he, rfl, rfl, whole_acls (whole_block hlt)⟩

/-- The count number `k` of what is sent. -/
@[simp] def counted : Nat → Bytes → Option (BitVec 16)
  | 0, input => (recvShort input).map (·.1)
  | k + 1, input => (recvShort input).bind fun r => counted k r.2

theorem counted_none {input : Bytes} (h : recvShort input = none) (k : Nat) :
    counted k input = none := by
  cases k with
  | zero => rw [counted, h, Option.map_none]
  | succ k => rw [counted, h, Option.bind_none]

section Counted

variable {input rest : Bytes} {n : BitVec 16} (h : recvShort input = some (n, rest))

include h

theorem counted_zero : counted 0 input = some n := by
  rw [counted, h, Option.map_some]

theorem counted_succ (k : Nat) : counted (k + 1) input = counted k rest := by
  rw [counted, h, Option.bind_some]

end Counted

/-- The variables with a database that was received. -/
def loaded (data : AccData) : Acc :=
  { nHosts := data.nHosts
    nListens := data.nListens
    nAliases := data.nAliases
    nAcls := data.nAcls
    hostList := .block (times data.nHosts) data.hostList
    listenList := .block (times data.nListens) data.listenList
    aliasList := .block (times data.nAliases) data.aliasList
    acList := .block (times data.nAcls) data.acList }

/-- A load that failed has left the number of listen entries and of ACL entries that it received, or
the old ones, and no database as a whole. -/
structure Left (before : Acc) (input : Bytes) (after : Acc) : Prop where
  nListens : after.nListens = (counted 1 input).getD before.nListens
  nAcls : after.nAcls = (counted 3 input).getD before.nAcls
  whole : after.whole = none

/-- A load that succeeds has what the reader of the tables gets. -/
theorem scan_ok {heap : Heap} {input rest : Bytes} {data : AccData}
    (h : scanAccessDatabase heap input = some (data, rest)) (before : Acc) :
    scan heap ⟨before, input⟩ = .ok () ⟨loaded data, rest⟩ := by
  obtain ⟨nHosts, s₁, h₁, h⟩ := Reader.bind_eq_some.mp h
  obtain ⟨nListens, s₂, h₂, h⟩ := Reader.bind_eq_some.mp h
  obtain ⟨nAliases, s₃, h₃, h⟩ := Reader.bind_eq_some.mp h
  obtain ⟨nAcls, s₄, h₄, h⟩ := Reader.bind_eq_some.mp h
  obtain ⟨nChars, s₅, h₅, h⟩ := Reader.bind_eq_some.mp h
  unfold scan
  rw [update_bind, receive_some h₁, update_bind, receive_some h₂, update_bind, receive_some h₃,
    update_bind, receive_some h₄, update_bind, receive_some h₅]
  split at h
  · rename_i hm
    rw [if_pos hm, update_bind]
    let acc : Acc := { before.free with nHosts, nListens, nAliases, nAcls }
    have hok := recvLists_ok acc h
    obtain ⟨_, _, h⟩ := Reader.bind_eq_some.mp h
    obtain ⟨_, _, _, h⟩ := Reader.bind_eq_some.mp h.2
    obtain ⟨_, _, _, h⟩ := Reader.bind_eq_some.mp h
    obtain ⟨_, _, rfl⟩ := Reader.map_eq_some.mp h
    exact hok
  · cases h

/-- **What a load leaves that fails.** -/
theorem scan_failed {heap : Heap} {input : Bytes} (h : scanAccessDatabase heap input = none)
    (before : Acc) :
    ∃ after rest, scan heap ⟨before, input⟩ = .error () ⟨after, rest⟩ ∧ Left before input after := by
  unfold scan
  unfold scanAccessDatabase at h
  rw [update_bind]
  cases h₁ : recvShort input with
  | none =>
    rw [receive_none h₁]
    exact ⟨_, _, rfl, by rw [counted_none h₁]; rfl, by rw [counted_none h₁]; rfl,
      whole_hosts (free_whole _)⟩
  | some r =>
  obtain ⟨nHosts, s₁⟩ := r
  rw [receive_some h₁, update_bind]
  rw [Reader.bind_some h₁] at h
  cases h₂ : recvShort s₁ with
  | none =>
    rw [receive_none h₂]
    refine ⟨_, _, rfl, ?_, ?_, whole_hosts (free_whole _)⟩
    · rw [counted_succ h₁, counted_none h₂]
      rfl
    · rw [counted_succ h₁, counted_none h₂]
      rfl
  | some r =>
  obtain ⟨nListens, s₂⟩ := r
  rw [receive_some h₂, update_bind]
  rw [Reader.bind_some h₂] at h
  have hl : counted 1 input = some nListens := by rw [counted_succ h₁, counted_zero h₂]
  cases h₃ : recvShort s₂ with
  | none =>
    rw [receive_none h₃]
    refine ⟨_, _, rfl, ?_, ?_, whole_hosts (free_whole _)⟩
    · rw [hl]
      rfl
    · rw [counted_succ h₁, counted_succ h₂, counted_none h₃]
      rfl
  | some r =>
  obtain ⟨nAliases, s₃⟩ := r
  rw [receive_some h₃, update_bind]
  rw [Reader.bind_some h₃] at h
  cases h₄ : recvShort s₃ with
  | none =>
    rw [receive_none h₄]
    refine ⟨_, _, rfl, ?_, ?_, whole_hosts (free_whole _)⟩
    · rw [hl]
      rfl
    · rw [counted_succ h₁, counted_succ h₂, counted_succ h₃, counted_none h₄]
      rfl
  | some r =>
  obtain ⟨nAcls, s₄⟩ := r
  rw [receive_some h₄, update_bind]
  rw [Reader.bind_some h₄] at h
  have hc : counted 3 input = some nAcls := by
    rw [counted_succ h₁, counted_succ h₂, counted_succ h₃, counted_zero h₄]
  cases h₅ : Backend.gRecvInt s₄ with
  | none =>
    rw [receive_none h₅]
    refine ⟨_, _, rfl, ?_, ?_, whole_hosts (free_whole _)⟩
    · rw [hl]
      rfl
    · rw [hc]
      rfl
  | some r =>
  obtain ⟨nChars, s₅⟩ := r
  rw [receive_some h₅]
  rw [Reader.bind_some h₅] at h
  split at h
  · rename_i hm
    rw [if_pos hm, update_bind]
    let acc : Acc := { before.free with nHosts, nListens, nAliases, nAcls }
    obtain ⟨after, rest, he, hnl, hna, hw⟩ := recvLists_failed acc h
    refine ⟨after, rest, he, ?_, ?_, hw⟩
    · rw [hl, hnl]
      rfl
    · rw [hc, hna]
      rfl
  · rename_i hm
    rw [if_neg hm]
    refine ⟨_, _, rfl, ?_, ?_, whole_hosts rfl⟩
    · rw [hl]
      rfl
    · rw [hc]
      rfl

/-! ## The law -/

/-- **A failed load is sound exactly when it leaves no listen entries and no ACL entries**: neither
the number that was received nor, if it failed before that, the one of the previous database. -/
theorem failed_sound_iff (heap : Heap) (before : Acc) (input : Bytes)
    (h : scanAccessDatabase heap input = none) :
    ∃ after rest, scan heap ⟨before, input⟩ = .error () ⟨after, rest⟩ ∧
      (Sound before after ↔ times ((counted 1 input).getD before.nListens) = 0 ∧
        (counted 3 input).getD before.nAcls = 0) := by
  obtain ⟨after, rest, he, hleft⟩ := scan_failed h before
  refine ⟨after, rest, he, ?_⟩
  rw [← hleft.nListens, ← hleft.nAcls, ← denies_iff]
  constructor
  · rintro (⟨db, -, hdb⟩ | hd)
    · rw [hleft.whole] at hdb
      cases hdb
    · exact hd
  · exact .inr

/-- A database with one ACL entry for everybody. -/
def oneAcl : AccData where
  nHosts := 1
  nListens := 0
  nAliases := 0
  nAcls := 1
  nChars := 2
  hostList := [.pattern ⟨0, some [42, 0]⟩]
  listenList := []
  aliasList := []
  acList := [⟨0, 1, 0, 0, 0⟩]
  cptr := 2

/-- The reader dies before it has sent anything, and the former ACL entry is still counted. -/
theorem died_at_once : ∃ after rest, scan Ipc.Sample.ample ⟨loaded oneAcl, []⟩ =
    .error () ⟨after, rest⟩ ∧ ¬ Sound (loaded oneAcl) after := by
  obtain ⟨after, rest, he, hs⟩ := failed_sound_iff Ipc.Sample.ample (loaded oneAcl) [] rfl
  exact ⟨after, rest, he, fun h => absurd (hs.mp h).2 (by decide)⟩

theorem not_failed_sound : ¬ ∀ (heap : Heap) (before : Acc) (input : Bytes),
    scanAccessDatabase heap input = none → ∀ after rest,
      scan heap ⟨before, input⟩ = .error () ⟨after, rest⟩ → Sound before after := by
  intro h
  have hs := h Ipc.Sample.ample (loaded oneAcl) [] rfl _ _ rfl
  rcases hs with ⟨db, -, hdb⟩ | hd
  · cases hdb
  · exact absurd ((denies_iff _).mp hd).2 (by decide)

end Kdm.Xaccess.Reload
