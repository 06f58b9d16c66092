import Kdm.Xaccess.Scan

/-!
# The transfer of the Xaccess file

The daemon has the entries of the file, in their order and with their hosts, exactly when its
`short` counters are wide enough and `gRecvStrBuf` takes every pattern and name.

Principal result: `delivered_iff`.
-/

namespace Kdm.Xaccess

open Codec Ipc

variable {heap : Heap} {env : Env} {t : Tables} {nchr : Int}

/-! ## The entries in the daemon -/

/-- Entries with their hosts, in the terms of the daemon. -/
structure Listed where
  listens : List (Option Xdmcp.HostEntry × List Xdmcp.HostEntry)
  aliases : List (Bytes × List Xdmcp.HostEntry)
  acls : List (List Xdmcp.HostEntry × List Xdmcp.HostEntry × Bool × Bool)

/-- The entries that the tables of the daemon describe. -/
def listed (acc : Xdmcp.AccArr) : Listed where
  listens := acc.listenList.map fun l =>
    (l.iface.bind fun i => acc.hostList[i]?, acc.slice l.mcasts l.nmcasts)
  aliases := acc.aliasList.map fun a => (a.name, acc.slice a.hosts a.nhosts)
  acls := acc.acList.map fun a =>
    (acc.slice a.entries a.nentries, acc.slice a.hosts a.nhosts, a.a_notAllowed, a.a_notBroadcast)

def HostEntry.entry : HostEntry → Xdmcp.HostEntry
  | .alias p => .alias p.1
  | .address ai => .address (familyOf ai.family) ai.addr
  | .pattern p => .pattern p.1
  | .broadcast => .broadcast

def Entries.listed (es : Entries) : Listed where
  listens := es.listens.map fun l => (l.1.map HostEntry.entry, l.2.map HostEntry.entry)
  aliases := es.aliases.map fun a => (a.1.1, a.2.map HostEntry.entry)
  acls := es.acls.map fun a => (a.1.map HostEntry.entry, a.2.1.map HostEntry.entry,
    a.2.2 &&& a_notAllowed != 0, a.2.2 &&& a_notBroadcast != 0)

/-- The C string at a pointer. -/
def text (p : Stored) : Bytes := (p.buf.getD []).takeWhile (· != 0)

def HostRes.entry : HostRes → Xdmcp.HostEntry
  | .alias p => .alias (text p)
  | .address type p => .address type (p.buf.getD [])
  | .pattern p => .pattern (text p)
  | .broadcast => .broadcast

/-- The tables as the rest of the daemon uses them. -/
def AccData.acc (data : AccData) : Xdmcp.AccArr where
  hostList := data.hostList.map HostRes.entry
  listenList := data.listenList.map fun l =>
    ⟨if l.iface.toInt < 0 then none else some l.iface.toInt.toNat, l.mcasts.toInt.toNat,
      l.nmcasts.toInt.toNat⟩
  aliasList := data.aliasList.map fun a => ⟨text a.name, a.hosts.toInt.toNat, a.nhosts.toInt.toNat⟩
  acList := data.acList.map fun a =>
    ⟨a.entries.toInt.toNat, a.nentries.toInt.toNat, a.hosts.toInt.toNat, a.nhosts.toInt.toNat,
      a.flags.setWidth 32 &&& a_notAllowed != 0, a.flags.setWidth 32 &&& a_notBroadcast != 0⟩

/-- The tables of the config reader in the same terms. -/
def Tables.acc (t : Tables) : Xdmcp.AccArr where
  hostList := t.hostList.map HostEntry.entry
  listenList := t.listenList.map fun l => ⟨l.iface, l.mcasts, l.nmcasts⟩
  aliasList := t.aliasList.map fun a => ⟨a.name.1, a.hosts, a.nhosts⟩
  acList := t.acList.map fun a => ⟨a.entries, a.nentries, a.hosts, a.nhosts,
    a.flags &&& a_notAllowed != 0, a.flags &&& a_notBroadcast != 0⟩

theorem slice_acc (t : Tables) (fh nh : Nat) :
    t.acc.slice fh nh = (t.slice fh nh).map HostEntry.entry := by
  unfold Xdmcp.AccArr.slice Tables.slice Tables.acc
  rw [List.map_take, List.map_drop]

theorem listed_acc (t : Tables) : listed t.acc = t.entries.listed := by
  unfold listed Entries.listed Tables.entries
  simp only [slice_acc]
  simp only [Tables.acc, List.map_map, Function.comp_def, Tables.listenEntry, Tables.aliasEntry,
    Tables.aclEntry, List.getElem?_map, Option.map_bind]

theorem map_eq_of_forall₂ {α β γ : Type*} {R : α → β → Prop} {f : α → γ} {g : β → γ}
    {l : List α} {l' : List β} (h : List.Forall₂ R l l') (hfg : ∀ a b, R a b → g b = f a) :
    l'.map g = l.map f := by
  induction h with
  | nil => rfl
  | cons hr _ ih => rw [List.map_cons, List.map_cons, hfg _ _ hr, ih]

theorem text_terminated (p : CStr) (off : Int) : text ⟨off, some (p.1 ++ [0])⟩ = p.1 := by
  unfold text
  rw [Option.getD_some, List.takeWhile_append_of_pos (fun c hc => ?_)]
  · simp
  · rw [bne_iff_ne]
    rintro rfl
    exact p.2 hc

theorem entry_hosts {l : List HostEntry} {l' : List HostRes} (h : List.Forall₂ HostHolds l l') :
    l'.map HostRes.entry = l.map HostEntry.entry := by
  refine map_eq_of_forall₂ h fun e r he => ?_
  cases he with
  | aliasPattern => exact congrArg _ (text_terminated _ _)
  | hostPattern => exact congrArg _ (text_terminated _ _)
  | displayAddress => rfl
  | broadcast => rfl

/-- The daemon has the tables of the config reader. -/
theorem Exactly.acc {data : AccData} (h : Exactly t data) : data.acc = t.acc := by
  unfold AccData.acc Tables.acc
  rw [entry_hosts h.hosts, map_eq_of_forall₂ h.listens, map_eq_of_forall₂ h.aliases,
    map_eq_of_forall₂ h.acls]
  · intro a r ha
    rw [ha.entries, ha.nentries, ha.hosts, ha.nhosts, ha.flags]
    rfl
  · intro a r ha
    obtain ⟨name, hosts, nhosts⟩ := r
    obtain ⟨off, buf⟩ := name
    cases show buf = some (a.name.1 ++ [0]) from ha.name
    rw [text_terminated, ha.hosts, ha.nhosts]
    rfl
  · intro l r hl
    rw [hl.mcasts, hl.nmcasts, hl.iface]
    cases l.iface with
    | none => rfl
    | some i => rfl

/-! ## Numbers -/

theorem toInt_short {n : Nat} (h : n < 2 ^ 15) : ((int n).setWidth 16).toInt = n := by
  unfold int
  rw [BitVec.toInt_eq_toNat_cond, BitVec.toNat_setWidth, BitVec.toNat_ofNat]
  split <;> omega

theorem toInt_int {n : Nat} (h : n < 2 ^ 31) : (int n).toInt = n := by
  unfold int
  rw [toInt_of_lt (by rw [toNat_ofNat_of_lt h]; exact h), toNat_ofNat_of_lt h]

/-- A number that is too large for an `int` arrives as a smaller one. -/
theorem toInt_wrapped (n : Nat) : n < 2 ^ 31 ∨ (int n).toInt + 2 ^ 32 ≤ n := by
  unfold int
  rw [BitVec.toInt_eq_toNat_cond, BitVec.toNat_ofNat]
  split <;> omega

theorem times_lt (n : BitVec 16) : times n < 2 ^ 15 := by
  unfold times
  rw [BitVec.toInt_eq_toNat_cond]
  have hlt := n.isLt
  split <;> omega

theorem times_short {n : Nat} (h : n < 2 ^ 15) : times ((int n).setWidth 16) = n := by
  unfold times
  rw [toInt_short h, Int.toNat_natCast]

theorem recvShort_word (v : BitVec 32) (rest : Bytes) :
    recvShort (word v ++ rest) = some (v.setWidth 16, rest) :=
  Reader.map_eq_some.mpr ⟨v, readInt_word v rest, rfl⟩

theorem movesBy_setWidth : MovesBy fun len => ((len.setWidth 16).toNat : Int) := by
  intro len h
  show ((len.setWidth 16).toNat : Int) = len.toNat
  rw [BitVec.toNat_setWidth, Nat.mod_eq_of_lt h]

/-! ## What arrives when the tables are within the limits -/

def terminated (s : CStr) : Bytes := s.1 ++ [0]

theorem length_terminated (s : CStr) : (terminated s).length = s.1.length + 1 := by
  simp [terminated]

theorem gSendStr_short {s : CStr} (h : s.1.length + 1 < 0x10000) :
    Config.gSendStr (some s) = some (bufBytes (terminated s)) := by
  have hlen := length_terminated s
  have hw : gWrite (terminated s) (BitVec.ofNat 32 (s.1.length + 1)) = some (terminated s) :=
    gWrite_of_lt hlen (Nat.lt_trans h (by decide))
  unfold bufBytes
  rw [hlen]
  show (gWrite (terminated s) (BitVec.ofNat 32 (s.1.length + 1))).map _ = _
  rw [hw]
  rfl

theorem gSendArr_addr (ai : Addrinfo) : Config.gSendArr ai.arr = some (bufBytes ai.addr) := by
  have hw : gWrite ai.arr.1 (BitVec.ofNat 32 ai.arr.1.length) = some ai.arr.1 :=
    gWrite_of_lt rfl ai.arr.2
  show (gWrite _ _).map _ = _
  rw [hw]
  rfl

theorem length_addr (ai : Addrinfo) : ai.addr.length = 4 ∨ ai.addr.length = 16 := by
  cases ai with
  | inet a => exact .inl a.2
  | inet6 a => exact .inr a.2

def HostEntry.bytes : HostEntry → Bytes
  | .alias p => word HOST_ALIAS ++ bufBytes (terminated p)
  | .pattern p => word HOST_PATTERN ++ bufBytes (terminated p)
  | .address ai => word HOST_ADDRESS ++ (bufBytes ai.addr ++ word ai.family)
  | .broadcast => word HOST_BROADCAST

def HostEntry.res : HostEntry → Int → HostRes
  | .alias p, c => .alias (storedAt (terminated p) c)
  | .pattern p, c => .pattern (storedAt (terminated p) c)
  | .address ai, c => .address (familyOf ai.family) (storedAt ai.addr c)
  | .broadcast, _ => .broadcast

def HostEntry.next (h : HostEntry) (c : Int) : Int := c + (h.chars : Nat)

def HostEntry.Short (h : HostEntry) : Prop := ∀ p, h.text = some p → p.1.length + 1 < 0x10000

theorem HostEntry.send_eq {h : HostEntry} (hs : h.Short) : h.send = some h.bytes := by
  cases h with
  | «alias» p =>
    show sendAll [Config.gSendInt HOST_ALIAS, Config.gSendStr (some p)] = _
    rw [gSendStr_short (hs p rfl)]
    exact congrArg some (by simp [HostEntry.bytes])
  | pattern p =>
    show sendAll [Config.gSendInt HOST_PATTERN, Config.gSendStr (some p)] = _
    rw [gSendStr_short (hs p rfl)]
    exact congrArg some (by simp [HostEntry.bytes])
  | address ai =>
    show sendAll [Config.gSendInt HOST_ADDRESS, Config.gSendArr ai.arr, Config.gSendInt ai.family] = _
    rw [gSendArr_addr]
    exact congrArg some (by simp [HostEntry.bytes])
  | broadcast => exact congrArg some (by simp [HostEntry.bytes])

/-- There is room for the hosts, and their texts are taken. -/
structure HostRoom (nchr : Int) (l : List HostEntry) (c : Int) : Prop where
  start : 0 ≤ c
  room : c + ((l.map HostEntry.chars).sum : Nat) ≤ nchr
  short : ∀ h ∈ l, h.Short

theorem HostRoom.next {h : HostEntry} {l : List HostEntry} {c : Int}
    (hr : HostRoom nchr (h :: l) c) : HostRoom nchr l (h.next c) := by
  obtain ⟨hstart, hroom, hshort⟩ := hr
  rw [List.map_cons, List.sum_cons] at hroom
  unfold HostEntry.next
  exact ⟨by omega, by omega, fun h' hh => hshort h' (List.mem_cons_of_mem h hh)⟩

theorem recvHost_sent {h : HostEntry} {l : List HostEntry} {c : Int}
    (hr : HostRoom nchr (h :: l) c) (rest : Bytes) :
    recvHost nchr c (h.bytes ++ rest) = some ((h.res c, h.next c), rest) := by
  obtain ⟨hstart, hroom, hshort⟩ := hr
  rw [List.map_cons, List.sum_cons] at hroom
  have hs := hshort h List.mem_cons_self
  have hstr (p : CStr) (hp : h.chars = p.1.length + 1) (hlt : p.1.length + 1 < 0x10000) :
      recvStr nchr c (bufBytes (terminated p) ++ rest) =
        some ((storedAt (terminated p) c, h.next c), rest) := by
    have hlen := length_terminated p
    have hsent : recvStr nchr c (bufBytes (terminated p) ++ rest) =
        some ((storedAt (terminated p) c, c + ((terminated p).length : Int)), rest) :=
      recvBuf_sent movesBy_toInt (by simp [terminated]) (by rwa [hlen]) hstart
        (by rw [hlen, ← hp]; omega) rest
    rwa [hlen, ← hp] at hsent
  unfold recvHost
  cases h with
  | «alias» p =>
    show (recvShort.bind _) (word _ ++ _ ++ rest) = _
    rw [List.append_assoc, Reader.bind_some (recvShort_word _ _), if_pos rfl]
    exact Reader.map_eq_some.mpr ⟨_, hstr p rfl (hs p rfl), rfl⟩
  | pattern p =>
    show (recvShort.bind _) (word _ ++ _ ++ rest) = _
    rw [List.append_assoc, Reader.bind_some (recvShort_word _ _), if_neg (by decide), if_pos rfl]
    exact Reader.map_eq_some.mpr ⟨_, hstr p rfl (hs p rfl), rfl⟩
  | address ai =>
    have hlen := length_addr ai
    have hchars : (HostEntry.address ai).chars = ai.addr.length := rfl
    have hsent : recvAddr nchr c (bufBytes ai.addr ++ (word ai.family ++ rest)) =
        some ((storedAt ai.addr c, c + (ai.addr.length : Int)), word ai.family ++ rest) :=
      recvBuf_sent movesBy_setWidth (List.ne_nil_of_length_pos (by omega)) (by omega) hstart
        (by rw [hchars] at hroom; omega) _
    show (recvShort.bind _) (word _ ++ (_ ++ _) ++ rest) = _
    rw [List.append_assoc, Reader.bind_some (recvShort_word _ _), if_neg (by decide),
      if_neg (by decide), if_pos rfl, List.append_assoc, Reader.bind_some hsent]
    exact Reader.map_eq_some.mpr ⟨_, readInt_word _ _, rfl⟩
  | broadcast =>
    show (recvShort.bind _) (word _ ++ rest) = _
    rw [Reader.bind_some (recvShort_word _ _), if_neg (by decide), if_neg (by decide),
      if_neg (by decide), if_pos rfl]
    simp [Reader.pure, HostEntry.res, HostEntry.next, HostEntry.chars]

theorem res_holds (h : HostEntry) (c : Int) : HostHolds h (h.res c) := by
  cases h with
  | «alias» p => exact .aliasPattern
  | pattern p => exact .hostPattern
  | address ai => exact .displayAddress
  | broadcast => exact .broadcast

/-- There is room for the names of the aliases. -/
structure AliasRoom (nchr : Int) (l : List AliasEntry) (c : Int) : Prop where
  start : 0 ≤ c
  room : c + ((l.map fun a => a.name.1.length + 1).sum : Nat) ≤ nchr
  short : ∀ a ∈ l, a.name.1.length + 1 < 0x10000

def AliasEntry.bytes (a : AliasEntry) : Bytes :=
  bufBytes (terminated a.name) ++ (word (int a.hosts) ++ word (int a.nhosts))

def AliasEntry.res (a : AliasEntry) (c : Int) : AliasRes :=
  ⟨storedAt (terminated a.name) c, (int a.hosts).setWidth 16, (int a.nhosts).setWidth 16⟩

def AliasEntry.next (a : AliasEntry) (c : Int) : Int := c + (a.name.1.length + 1 : Nat)

theorem AliasEntry.send_eq {a : AliasEntry} (hs : a.name.1.length + 1 < 0x10000) :
    a.send = some a.bytes := by
  unfold AliasEntry.send
  rw [gSendStr_short hs]
  exact congrArg some (by simp [AliasEntry.bytes])

theorem AliasRoom.next {a : AliasEntry} {l : List AliasEntry} {c : Int}
    (hr : AliasRoom nchr (a :: l) c) : AliasRoom nchr l (a.next c) := by
  obtain ⟨hstart, hroom, hshort⟩ := hr
  rw [List.map_cons, List.sum_cons] at hroom
  unfold AliasEntry.next
  exact ⟨by omega, by omega, fun a' ha => hshort a' (List.mem_cons_of_mem a ha)⟩

theorem recvAlias_sent {a : AliasEntry} {l : List AliasEntry} {c : Int}
    (hr : AliasRoom nchr (a :: l) c) (rest : Bytes) :
    recvAlias nchr c (a.bytes ++ rest) = some ((a.res c, a.next c), rest) := by
  obtain ⟨hstart, hroom, hshort⟩ := hr
  rw [List.map_cons, List.sum_cons] at hroom
  have hs := hshort a List.mem_cons_self
  have hlen := length_terminated a.name
  have hsent (s : Bytes) : recvStr nchr c (bufBytes (terminated a.name) ++ s) =
      some ((storedAt (terminated a.name) c, c + ((terminated a.name).length : Int)), s) :=
    recvBuf_sent movesBy_toInt (by simp [terminated]) (by rwa [hlen]) hstart
      (by rw [hlen]; omega) s
  unfold recvAlias AliasEntry.bytes
  rw [List.append_assoc, List.append_assoc, Reader.bind_some (hsent _),
    Reader.bind_some (recvShort_word _ _)]
  refine Reader.map_eq_some.mpr ⟨_, recvShort_word _ _, ?_⟩
  unfold AliasEntry.res AliasEntry.next
  rw [hlen]

def ListenEntry.bytes (l : ListenEntry) : Bytes :=
  word (l.iface.elim (-1) int) ++ (word (int l.mcasts) ++ word (int l.nmcasts))

def ListenEntry.res (l : ListenEntry) : ListenRes :=
  ⟨(l.iface.elim (-1) int).setWidth 16, (int l.mcasts).setWidth 16, (int l.nmcasts).setWidth 16⟩

theorem recvListen_sent (l : ListenEntry) (rest : Bytes) :
    recvListen (l.bytes ++ rest) = some (l.res, rest) := by
  unfold recvListen ListenEntry.bytes
  rw [List.append_assoc, List.append_assoc, Reader.bind_some (recvShort_word _ _),
    Reader.bind_some (recvShort_word _ _)]
  exact Reader.map_eq_some.mpr ⟨_, recvShort_word _ _, rfl⟩

def AclEntry.bytes (a : AclEntry) : Bytes :=
  word (int a.entries) ++ (word (int a.nentries) ++ (word (int a.hosts) ++
    (word (int a.nhosts) ++ word a.flags)))

def AclEntry.res (a : AclEntry) : AclRes :=
  ⟨(int a.entries).setWidth 16, (int a.nentries).setWidth 16, (int a.hosts).setWidth 16,
    (int a.nhosts).setWidth 16, a.flags.setWidth 16⟩

theorem recvAcl_sent (a : AclEntry) (rest : Bytes) :
    recvAcl (a.bytes ++ rest) = some (a.res, rest) := by
  unfold recvAcl AclEntry.bytes
  simp only [List.append_assoc]
  rw [Reader.bind_some (recvShort_word _ _), Reader.bind_some (recvShort_word _ _),
    Reader.bind_some (recvShort_word _ _), Reader.bind_some (recvShort_word _ _)]
  exact Reader.map_eq_some.mpr ⟨_, recvShort_word _ _, rfl⟩

/-! ## All tables -/

/-- What is sent behind the counts. -/
def Tables.body (t : Tables) : Bytes :=
  (t.hostList.map HostEntry.bytes).flatten ++ ((t.listenList.map ListenEntry.bytes).flatten ++
    ((t.aliasList.map AliasEntry.bytes).flatten ++ (t.acList.map AclEntry.bytes).flatten))

/-- What the daemon makes of the tables. -/
def Tables.data (t : Tables) : AccData :=
  let hosts := threaded HostEntry.res HostEntry.next t.hostList 0
  let aliases := threaded AliasEntry.res AliasEntry.next t.aliasList hosts.2
  ⟨(int t.hostList.length).setWidth 16, (int t.listenList.length).setWidth 16,
    (int t.aliasList.length).setWidth 16, (int t.acList.length).setWidth 16, int t.nChars,
    hosts.1, t.listenList.map ListenEntry.res, aliases.1, t.acList.map AclEntry.res, aliases.2⟩

/-- The counts are sent in front, whatever the tables are. -/
theorem send_counts {bytes : Bytes} (h : t.send = some bytes) : ∃ body,
    bytes = word (int t.hostList.length) ++ (word (int t.listenList.length) ++
      (word (int t.aliasList.length) ++ (word (int t.acList.length) ++
        (word (int t.nChars) ++ body)))) := by
  unfold Tables.send at h
  simp only [List.cons_append, List.nil_append, sendAll, Config.gSendInt, sendInt,
    Option.bind_some, Option.map_map] at h
  obtain ⟨body, -, rfl⟩ := Option.map_eq_some_iff.mp h
  exact ⟨body, rfl⟩

theorem send_short (htexts : ∀ h ∈ t.hostList, h.Short)
    (hnames : ∀ a ∈ t.aliasList, a.name.1.length + 1 < 0x10000) :
    t.send = some (word (int t.hostList.length) ++
      (word (int t.listenList.length) ++ (word (int t.aliasList.length) ++
        (word (int t.acList.length) ++ (word (int t.nChars) ++ t.body))))) := by
  have hhosts : t.hostList.map HostEntry.send = (t.hostList.map HostEntry.bytes).map some := by
    rw [List.map_map]
    exact List.map_congr_left fun e he => HostEntry.send_eq (htexts e he)
  have haliases : t.aliasList.map AliasEntry.send = (t.aliasList.map AliasEntry.bytes).map some := by
    rw [List.map_map]
    exact List.map_congr_left fun e he => AliasEntry.send_eq (hnames e he)
  have hlistens : t.listenList.map ListenEntry.send =
      (t.listenList.map ListenEntry.bytes).map some := by
    rw [List.map_map]
    exact List.map_congr_left fun e _ => congrArg some (by simp [ListenEntry.bytes])
  have hacls : t.acList.map AclEntry.send = (t.acList.map AclEntry.bytes).map some := by
    rw [List.map_map]
    exact List.map_congr_left fun e _ => congrArg some (by simp [AclEntry.bytes])
  have hall := sendAll_some ([word (int t.hostList.length), word (int t.listenList.length),
    word (int t.aliasList.length), word (int t.acList.length), word (int t.nChars)] ++
    t.hostList.map HostEntry.bytes ++ t.listenList.map ListenEntry.bytes ++
    t.aliasList.map AliasEntry.bytes ++ t.acList.map AclEntry.bytes)
  simp only [List.map_append, List.flatten_append] at hall
  unfold Tables.send
  rw [hhosts, haliases, hlistens, hacls]
  refine hall.trans (congrArg some ?_)
  simp only [Tables.body, List.flatten_cons, List.flatten_nil, List.append_assoc, List.append_nil]

theorem send_body (h : Fits heap t) : t.send = some (word (int t.hostList.length) ++
    (word (int t.listenList.length) ++ (word (int t.aliasList.length) ++
      (word (int t.acList.length) ++ (word (int t.nChars) ++ t.body))))) :=
  send_short h.texts h.names

theorem scan_counts (a b c d e : BitVec 32) (s : Bytes) :
    scanAccessDatabase heap (word a ++ (word b ++ (word c ++ (word d ++ (word e ++ s))))) =
      if heap.malloc (blockSize (a.setWidth 16) (b.setWidth 16) (c.setWidth 16) (d.setWidth 16) e)
      then recvTables (a.setWidth 16) (b.setWidth 16) (c.setWidth 16) (d.setWidth 16) e s
      else none := by
  unfold scanAccessDatabase Backend.gRecvInt
  rw [Reader.bind_some (recvShort_word _ _), Reader.bind_some (recvShort_word _ _),
    Reader.bind_some (recvShort_word _ _), Reader.bind_some (recvShort_word _ _),
    Reader.bind_some (readInt_word _ _)]
  split <;> rfl

theorem blockSize_counts {h l a c n : Nat} (hh : h < 2 ^ 15) (hl : l < 2 ^ 15) (ha : a < 2 ^ 15)
    (hc : c < 2 ^ 15) (hn : n < 2 ^ 31) :
    blockSize ((int h).setWidth 16) ((int l).setWidth 16) ((int a).setWidth 16)
      ((int c).setWidth 16) (int n) = 32 * h + 6 * l + 16 * a + 10 * c + n := by
  unfold blockSize
  rw [toInt_short hh, toInt_short hl, toInt_short ha, toInt_short hc, toInt_int hn]
  omega

/-- Where the names of the aliases start. -/
theorem hosts_next (l : List HostEntry) (c : Int) :
    (threaded HostEntry.res HostEntry.next l c).2 = c + ((l.map HostEntry.chars).sum : Nat) :=
  threaded_measure (m := id) (fun _ _ => rfl) l c

theorem recvTables_sent (hw : t.Wf 0 0) (h : Fits heap t) (rest : Bytes) :
    recvTables ((int t.hostList.length).setWidth 16) ((int t.listenList.length).setWidth 16)
      ((int t.aliasList.length).setWidth 16) ((int t.acList.length).setWidth 16) (int t.nChars)
      (t.body ++ rest) = some (t.data, rest) := by
  have henough := hw.enough
  unfold Tables.chars at henough
  have hn := toInt_int h.chars
  have hroom : HostRoom (int t.nChars).toInt t.hostList 0 :=
    ⟨Int.le_refl 0, by rw [hn]; omega, h.texts⟩
  have haroom : AliasRoom (int t.nChars).toInt t.aliasList
      (threaded HostEntry.res HostEntry.next t.hostList 0).2 := by
    rw [hosts_next]
    exact ⟨by omega, by rw [hn]; omega, h.names⟩
  have hhosts := Reader.iterate_sent (I := HostRoom (int t.nChars).toInt)
    (fun _ _ _ h => ⟨recvHost_sent h, h.next⟩)
  have haliases := Reader.iterate_sent (I := AliasRoom (int t.nChars).toInt)
    (fun _ _ _ h => ⟨recvAlias_sent h, h.next⟩)
  have hlistens := readAll_sent (l := t.listenList) (fun l _ => recvListen_sent l)
  have hacls := readAll_sent (l := t.acList) (fun a _ => recvAcl_sent a)
  unfold recvTables Tables.body
  simp only [List.append_assoc]
  rw [times_short h.hosts, times_short h.listens, times_short h.aliases, times_short h.acls,
    Reader.bind_some (hhosts _ _ _ hroom), Reader.bind_some (hlistens _),
    Reader.bind_some (haliases _ _ _ haroom)]
  exact Reader.map_eq_some.mpr ⟨_, hacls _, rfl⟩

/-! ## What the daemon reads, whatever arrives -/

theorem recvHost_read {c c' : Int} {s r : Bytes} {e : HostRes}
    (h : recvHost nchr c s = some ((e, c'), r)) : Rounds (ReadBuf nchr) c e.strings c' := by
  unfold recvHost at h
  obtain ⟨type, s1, -, h⟩ := Reader.bind_eq_some.mp h
  split at h
  · obtain ⟨⟨p, c1⟩, hp, heq⟩ := Reader.map_eq_some.mp h
    cases heq
    exact ⟨_, recvBuf_read movesBy_toInt hp, rfl⟩
  split at h
  · obtain ⟨⟨p, c1⟩, hp, heq⟩ := Reader.map_eq_some.mp h
    cases heq
    exact ⟨_, recvBuf_read movesBy_toInt hp, rfl⟩
  split at h
  · obtain ⟨⟨p, c1⟩, s2, hp, h⟩ := Reader.bind_eq_some.mp h
    obtain ⟨type', -, heq⟩ := Reader.map_eq_some.mp h
    cases heq
    exact ⟨_, recvBuf_read movesBy_setWidth hp, rfl⟩
  split at h
  · cases h
    exact rfl
  · cases h

theorem recvAlias_read {c c' : Int} {s r : Bytes} {a : AliasRes}
    (h : recvAlias nchr c s = some ((a, c'), r)) : Rounds (ReadBuf nchr) c [a.name] c' := by
  unfold recvAlias at h
  obtain ⟨⟨p, c1⟩, s1, hp, h⟩ := Reader.bind_eq_some.mp h
  obtain ⟨hosts, s2, -, h⟩ := Reader.bind_eq_some.mp h
  obtain ⟨nhosts, -, heq⟩ := Reader.map_eq_some.mp h
  cases heq
  exact ⟨_, recvBuf_read movesBy_toInt hp, rfl⟩

/-- What tables that were read are like. -/
structure ReadTables (nHosts nListens nAliases nAcls : BitVec 16) (nChars : BitVec 32)
    (data : AccData) : Prop where
  chars : data.nChars = nChars
  hosts : data.hostList.length = times nHosts
  listens : data.listenList.length = times nListens
  aliases : data.aliasList.length = times nAliases
  acls : data.acList.length = times nAcls
  strings : Rounds (ReadBuf nChars.toInt) 0 data.strings data.cptr

theorem recvTables_read {nHosts nListens nAliases nAcls : BitVec 16} {nChars : BitVec 32}
    {s r : Bytes} {data : AccData}
    (h : recvTables nHosts nListens nAliases nAcls nChars s = some (data, r)) :
    ReadTables nHosts nListens nAliases nAcls nChars data := by
  unfold recvTables at h
  obtain ⟨⟨hosts, c1⟩, s1, hh, h⟩ := Reader.bind_eq_some.mp h
  obtain ⟨listens, s2, hl, h⟩ := Reader.bind_eq_some.mp h
  obtain ⟨⟨aliases, c2⟩, s3, ha, h⟩ := Reader.bind_eq_some.mp h
  obtain ⟨acls, hc, heq⟩ := Reader.map_eq_some.mp h
  cases heq
  obtain ⟨hlen, hrounds⟩ := Reader.rounds_of_iterate hh fun _ _ _ _ _ => recvHost_read
  obtain ⟨halen, harounds⟩ := Reader.rounds_of_iterate ha fun _ _ _ _ _ => recvAlias_read
  refine ⟨rfl, hlen, ?_, halen, ?_, ?_⟩
  · rw [length_of_readAll hl, List.length_replicate]
  · rw [length_of_readAll hc, List.length_replicate]
  · have hnames : aliases.map (·.name) = aliases.flatMap fun a => [a.name] := by
      rw [List.map_eq_flatMap]
    show Rounds _ _ (hosts.flatMap HostRes.strings ++ aliases.map (·.name)) _
    rw [hnames]
    exact (Rounds.flatMap hrounds).append (Rounds.flatMap harounds)

/-! ## Strings -/

/-- What is stored for a host. -/
def HostEntry.payload : HostEntry → List Bytes
  | .alias p => [terminated p]
  | .pattern p => [terminated p]
  | .address ai => [ai.addr]
  | .broadcast => []

def Tables.payload (t : Tables) : List Bytes :=
  t.hostList.flatMap HostEntry.payload ++ t.aliasList.map fun a => terminated a.name

theorem HostHolds.strings {e : HostEntry} {r : HostRes} (h : HostHolds e r) :
    r.strings.map (·.buf) = e.payload.map some := by
  cases h <;> rfl

theorem payload_chars (t : Tables) : (t.payload.map List.length).sum = t.chars := by
  have hhosts (l : List HostEntry) : ((l.flatMap HostEntry.payload).map List.length).sum =
      (l.map HostEntry.chars).sum := by
    induction l with
    | nil => rfl
    | cons e l ih =>
      have he : (e.payload.map List.length).sum = e.chars := by
        cases e <;> simp [HostEntry.payload, HostEntry.chars, terminated]
      rw [List.flatMap_cons, List.map_append, List.sum_append, ih, he, List.map_cons, List.sum_cons]
  unfold Tables.payload Tables.chars
  rw [List.map_append, List.sum_append, hhosts, List.map_map]
  simp only [Function.comp_def, length_terminated]

theorem hostStrings_payload {l : List HostEntry} {l' : List HostRes}
    (h : List.Forall₂ HostHolds l l') :
    (l'.flatMap HostRes.strings).map (·.buf) = (l.flatMap HostEntry.payload).map some := by
  induction h with
  | nil => rfl
  | cons h _ ih =>
    rw [List.flatMap_cons, List.flatMap_cons, List.map_append, List.map_append, ih, h.strings]

theorem strings_payload {data : AccData} (hh : List.Forall₂ HostHolds t.hostList data.hostList)
    (ha : List.Forall₂ AliasHolds t.aliasList data.aliasList) :
    data.strings.map (·.buf) = t.payload.map some := by
  have haliases : (data.aliasList.map (·.name)).map (·.buf) =
      (t.aliasList.map fun a => terminated a.name).map some := by
    rw [List.map_map, List.map_map]
    exact map_eq_of_forall₂ ha fun _ _ h => h.name
  unfold AccData.strings Tables.payload
  rw [List.map_append, List.map_append, hostStrings_payload hh, haliases]

/-- Tables that were read and hold what was sent: the strings are short, and fill the room. -/
theorem ReadTables.filled {nHosts nListens nAliases nAcls : BitVec 16} {nChars : BitVec 32}
    {data : AccData} (h : ReadTables nHosts nListens nAliases nAcls nChars data)
    (hh : List.Forall₂ HostHolds t.hostList data.hostList)
    (ha : List.Forall₂ AliasHolds t.aliasList data.aliasList) :
    Filled data.strings 0 data.cptr ∧ data.cptr = t.chars ∧
      ∀ buf ∈ t.payload, buf.length < 0x10000 := by
  have hmap := strings_payload hh ha
  have hbufs : ∀ p ∈ data.strings, ∃ buf, p.buf = some buf := by
    intro p hp
    have hmem : p.buf ∈ data.strings.map (·.buf) := List.mem_map_of_mem hp
    rw [hmap] at hmem
    obtain ⟨buf, -, hbuf⟩ := List.mem_map.mp hmem
    exact ⟨buf, hbuf.symm⟩
  obtain ⟨hfill, hin⟩ := filled_of_rounds hbufs h.strings
  refine ⟨hfill, ?_, fun buf hbuf => ?_⟩
  · rw [hfill.total hmap, payload_chars, Int.zero_add]
  · have hmem : some buf ∈ data.strings.map (·.buf) := by
      rw [hmap]
      exact List.mem_map_of_mem hbuf
    obtain ⟨p, hp, hpb⟩ := List.mem_map.mp hmem
    exact ((hin p hp).2 buf hpb).1

/-! ## Both ends -/

/-- The daemon gets the tables of the config reader, and the entries of the file with them. -/
def Delivered (heap : Heap) (env : Env) (file : Option Bytes) : Prop :=
  ∃ bytes data, (readAccessFile env file).send = some bytes ∧
    (∀ rest, scanAccessDatabase heap (bytes ++ rest) = some (data, rest)) ∧
    Exactly (readAccessFile env file) data ∧ listed data.acc = (fileEntries env file).listed

theorem listen_holds {l : ListenEntry} (hi : ∀ i, l.iface = some i → i < 2 ^ 15)
    (hm : l.mcasts < 2 ^ 15) (hn : l.nmcasts < 2 ^ 15) : ListenHolds l l.res where
  iface := by
    unfold ListenEntry.res
    cases h : l.iface with
    | none => rfl
    | some i => exact toInt_short (hi i h)
  mcasts := toInt_short hm
  nmcasts := toInt_short hn

theorem acl_holds {a : AclEntry} (he : a.entries + a.nentries < 2 ^ 15)
    (hh : a.hosts + a.nhosts < 2 ^ 15) (hf : a.flags.toNat < 4) : AclHolds a a.res where
  entries := toInt_short (by omega)
  nentries := toInt_short (by omega)
  hosts := toInt_short (by omega)
  nhosts := toInt_short (by omega)
  flags := by
    apply BitVec.eq_of_toNat_eq
    show ((a.flags.setWidth 16).setWidth 32).toNat = a.flags.toNat
    rw [BitVec.toNat_setWidth, BitVec.toNat_setWidth]
    omega

/-- The indices that the daemon has are those of well-formed tables. -/
theorem inTable_of_holds (hw : t.Wf 0 0) {data : AccData}
    (hn : data.nHosts.toInt = t.nHosts) (hh : List.Forall₂ HostHolds t.hostList data.hostList)
    (hl : List.Forall₂ ListenHolds t.listenList data.listenList)
    (ha : List.Forall₂ AliasHolds t.aliasList data.aliasList)
    (hc : List.Forall₂ AclHolds t.acList data.acList) : data.InTable where
  nHosts := by rw [hn, ← hh.length_eq]; rfl
  listens r hr := by
    obtain ⟨l, hl, hi, hm, hnm⟩ := (exists_of_forall₂ hl).1 r hr
    have hle := hw.mcasts l hl
    rw [hi, hm, hnm, hn]
    refine ⟨?_, by omega, by omega, by omega⟩
    cases he : l.iface with
    | none => exact Int.lt_of_lt_of_le (by decide : (-1 : Int) < 0) (Int.natCast_nonneg _)
    | some i => exact Int.ofNat_lt.mpr (hw.iface l hl i he)
  aliases r hr := by
    obtain ⟨a, ha, -, hs, hn'⟩ := (exists_of_forall₂ ha).1 r hr
    have hle := hw.aliases a ha
    rw [hs, hn', hn]
    omega
  entries r hr := by
    obtain ⟨a, ha, he, hne, -, -, -⟩ := (exists_of_forall₂ hc).1 r hr
    have hle := hw.entries a ha
    rw [he, hne, hn]
    omega
  hosts r hr := by
    obtain ⟨a, ha, -, -, hs, hns, -⟩ := (exists_of_forall₂ hc).1 r hr
    have hle := hw.hosts a ha
    rw [hs, hns, hn]
    omega

/-- **Within the limits the daemon has what was sent.** -/
theorem Fits.exactly (hw : t.Wf 0 0) (h : Fits heap t) : Exactly t t.data := by
  have hlt : t.nHosts < 2 ^ 15 := h.hosts
  have hhosts : List.Forall₂ HostHolds t.hostList t.data.hostList :=
    threaded_forall₂ res_holds _ _
  have haliases : List.Forall₂ AliasHolds t.aliasList t.data.aliasList := by
    have hres : List.Forall₂ (fun a r => ∃ c, r = AliasEntry.res a c) t.aliasList
        t.data.aliasList := threaded_forall₂ (fun _ c => ⟨c, rfl⟩) _ _
    have hmem := (List.forall₂_and_left _ _).mpr ⟨hw.aliases, hres⟩
    refine hmem.imp ?_
    rintro a _ ⟨hle, c, rfl⟩
    exact ⟨rfl, toInt_short (by omega), toInt_short (by omega)⟩
  have hlistens : List.Forall₂ ListenHolds t.listenList t.data.listenList := by
    refine List.forall₂_map_right_iff.mpr (List.forall₂_same.mpr fun l hl => ?_)
    have hle := hw.mcasts l hl
    exact listen_holds (fun i hi => Nat.lt_trans (hw.iface l hl i hi) hlt) (by omega) (by omega)
  have hacls : List.Forall₂ AclHolds t.acList t.data.acList := by
    refine List.forall₂_map_right_iff.mpr (List.forall₂_same.mpr fun a ha => ?_)
    exact acl_holds (Nat.lt_of_le_of_lt (hw.entries a ha) hlt)
      (Nat.lt_of_le_of_lt (hw.hosts a ha) hlt) (hw.flags a ha)
  obtain ⟨hfill, hcptr, -⟩ := (recvTables_read (recvTables_sent hw h [])).filled hhosts haliases
  refine ⟨hhosts, hlistens, haliases, hacls, ?_, hfill, ?_⟩
  · exact inTable_of_holds hw (toInt_short hlt) hhosts hlistens haliases hacls
  · have henough := hw.enough
    show t.data.cptr ≤ (int t.nChars).toInt
    rw [hcptr, toInt_int h.chars]
    omega

theorem Fits.delivered {file : Option Bytes} (h : Fits heap (readAccessFile env file)) :
    Delivered heap env file := by
  obtain ⟨hw, hentries⟩ := readAccessFile_spec env file
  have hex := h.exactly hw
  refine ⟨_, (readAccessFile env file).data, send_body h, fun rest => ?_, hex, ?_⟩
  · simp only [List.append_assoc]
    rw [scan_counts, blockSize_counts h.hosts h.listens h.aliases h.acls h.chars, if_pos h.memory]
    exact recvTables_sent hw h rest
  · rw [hex.acc, listed_acc, hentries]

/-- **The tables are transferred within the limits only.** -/
theorem Delivered.fits {file : Option Bytes} (h : Delivered heap env file) :
    Fits heap (readAccessFile env file) := by
  obtain ⟨bytes, data, hs, hr, hex, -⟩ := h
  obtain ⟨hw, -⟩ := readAccessFile_spec env file
  obtain ⟨body, rfl⟩ := send_counts hs
  have hr := hr []
  simp only [List.append_assoc] at hr
  rw [scan_counts] at hr
  split at hr
  · rename_i hmem
    have hread := recvTables_read hr
    obtain ⟨-, hcptr, hshort⟩ := hread.filled hex.hosts hex.aliases
    have hhosts : (readAccessFile env file).hostList.length < 2 ^ 15 := by
      rw [hex.hosts.length_eq, hread.hosts]
      exact times_lt _
    have hlistens : (readAccessFile env file).listenList.length < 2 ^ 15 := by
      rw [hex.listens.length_eq, hread.listens]
      exact times_lt _
    have haliases : (readAccessFile env file).aliasList.length < 2 ^ 15 := by
      rw [hex.aliases.length_eq, hread.aliases]
      exact times_lt _
    have hacls : (readAccessFile env file).acList.length < 2 ^ 15 := by
      rw [hex.acls.length_eq, hread.acls]
      exact times_lt _
    have hchars : (readAccessFile env file).nChars < 2 ^ 31 := by
      -- fewer than 2^15 characters were counted too many, so the sum cannot have wrapped
      have hroom := hex.room
      have hclose := hw.close
      rw [hread.chars, hcptr] at hroom
      have hwrap := toInt_wrapped (readAccessFile env file).nChars
      omega
    refine ⟨hhosts, hlistens, haliases, hacls, hchars, ?_, fun e he p hp => ?_, fun a ha => ?_⟩
    · rwa [blockSize_counts hhosts hlistens haliases hacls hchars] at hmem
    · have hmem : terminated p ∈ (readAccessFile env file).payload := by
        refine List.mem_append_left _ (List.mem_flatMap.mpr ⟨e, he, ?_⟩)
        cases e <;> cases hp <;> exact List.mem_singleton_self _
      have hlt := hshort _ hmem
      rwa [length_terminated] at hlt
    · have hmem : terminated a.name ∈ (readAccessFile env file).payload :=
        List.mem_append_right _ (List.mem_map_of_mem ha)
      have hlt := hshort _ hmem
      rwa [length_terminated] at hlt
  · cases hr

/-- **Xaccess transfer**: whatever is in the file, the announced room suffices, the indices stay
within the host table, and the daemon has the entries of the file in their order, exactly when the
tables are within the limits of the daemon. -/
theorem delivered_iff (heap : Heap) (env : Env) (file : Option Bytes) :
    Delivered heap env file ↔ Fits heap (readAccessFile env file) :=
  ⟨Delivered.fits, Fits.delivered⟩

namespace Sample

/-- No host can be resolved. -/
def noNames : Env := ⟨fun _ => none, none⟩

theorem readWordFrom_letters (eol : Bool) (n : Nat) : ∀ {w : CStr}, w.1 ≠ [] →
    ∃ x, readWordFrom eol w .plain (List.replicate n 97) = (some x, []) ∧
      x.1 = w.1 ++ List.replicate n 97 := by
  induction n with
  | zero =>
    intro w hw
    refine ⟨w, ?_, (List.append_nil _).symm⟩
    show (endOfWord w, _) = _
    unfold endOfWord
    rw [if_neg hw]
  | succ n ih =>
    intro w hw
    obtain ⟨x, hx, heq⟩ := ih (w := CStr.push w 97 (by decide)) (by simp [CStr.push])
    exact ⟨x, hx, by rw [heq, List.replicate_succ]; simp [CStr.push]⟩

/-- A file with one pattern. -/
def starred (n : Nat) : Bytes := 42 :: List.replicate n 97

theorem readLines_starred (n : Nat) : ∃ x, readLines (starred n) = [(x, [])] ∧
    x.1 = starred n := by
  obtain ⟨x, hx, heq⟩ := readWordFrom_letters false n
    (w := CStr.push emptyWord 42 (by decide)) (by simp [CStr.push])
  exact ⟨x, readLines_word hx, heq⟩

theorem readAccessFile_starred (n : Nat) : ∃ x : CStr, x.1 = starred n ∧
    HostEntry.pattern x ∈ (readAccessFile noNames (some (starred n))).hostList := by
  obtain ⟨x, hx, heq⟩ := readLines_starred n
  refine ⟨x, heq, ?_⟩
  have htables : readTables noNames (starred n) =
      ⟨[.pattern x], [⟨none, 1, 0⟩], [], [⟨0, 1, 1, 0, 0⟩], 0 + (x.1.length + 1), false⟩ := by
    unfold readTables
    rw [hx]
    obtain ⟨w, hw⟩ := x
    cases show w = 42 :: List.replicate n 97 from heq
    rfl
  unfold readAccessFile
  dsimp only
  rw [htables]
  exact List.mem_singleton_self _

end Sample

/-- The pattern has 65536 characters, and the daemon leaves it in the pipe. -/
theorem not_delivered : ∃ file, ¬ Delivered Ipc.Sample.ample Sample.noNames file := by
  obtain ⟨n, hn⟩ : ∃ n, n = 65535 := ⟨_, rfl⟩
  refine ⟨some (Sample.starred n), fun h => ?_⟩
  obtain ⟨x, hx, hmem⟩ := Sample.readAccessFile_starred n
  have hlt := h.fits.texts _ hmem x rfl
  rw [hx, Sample.starred, List.length_cons, List.length_replicate, hn] at hlt
  exact absurd hlt (by decide)

end Kdm.Xaccess
