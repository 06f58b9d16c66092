import Kdm.Xaccess.Tables

/-!
# What the tables of the config reader describe

The entries of the file with their lists of hosts (`fileEntries`), without a host table.  Reading
one line keeps the tables well formed and adds its entry (`Tables.addLine_entries`), so the tables
of a file describe its entries in their order.  A prefix that was cut off a display is counted, so
the characters are enough, and at most one too many for every entry of the access list.
-/

namespace Kdm.Xaccess

open Ipc

variable {env : Env} {t t' : Tables} {parse : BitVec 32} {w : CStr} {len : Nat}

/-! ## Entries with their hosts -/

structure Entries where
  listens : List (Option HostEntry × List HostEntry)
  aliases : List (CStr × List HostEntry)
  acls : List (List HostEntry × List HostEntry × BitVec 32)

def Entries.empty : Entries := ⟨[], [], []⟩

def Tables.listenEntry (t : Tables) (l : ListenEntry) : Option HostEntry × List HostEntry :=
  (l.iface.bind fun i => t.hostList[i]?, t.slice l.mcasts l.nmcasts)

def Tables.aliasEntry (t : Tables) (a : AliasEntry) : CStr × List HostEntry :=
  (a.name, t.slice a.hosts a.nhosts)

def Tables.aclEntry (t : Tables) (a : AclEntry) : List HostEntry × List HostEntry × BitVec 32 :=
  (t.slice a.entries a.nentries, t.slice a.hosts a.nhosts, a.flags)

/-- The entries that the tables describe. -/
def Tables.entries (t : Tables) : Entries where
  listens := t.listenList.map t.listenEntry
  aliases := t.aliasList.map t.aliasEntry
  acls := t.acList.map t.aclEntry

/-- The host that a word stands for. -/
def hostOf (env : Env) (parse : BitVec 32) (w : CStr) : Option HostEntry :=
  (parseHost env parse w w.1.length).map (·.1)

/-- The hosts of a list; those that cannot be resolved are left out. -/
def hostsOf (env : Env) (parse : BitVec 32) (words : List CStr) : List HostEntry :=
  words.filterMap (hostOf env parse)

def ifaceOf (env : Env) (words : List CStr) : Option HostEntry :=
  words.head?.bind fun w => if CStr.is w "*" then none else hostOf env PARSE_LISTEN w

/-- The entry of a line. -/
def Entries.addLine (env : Env) (es : Entries) (line : CStr × List CStr) : Entries :=
  if line.1.1.head? = some 37 then
    { es with aliases := es.aliases ++ [(CStr.next line.1, hostsOf env PARSE_NO_BCAST line.2)] }
  else if CStr.is line.1 "LISTEN" then
    { es with
      listens := es.listens ++ [(ifaceOf env line.2, hostsOf env PARSE_LISTEN line.2.tail)] }
  else
    match hostOf env PARSE_NO_BCAST (displayFlags line.1).2 with
    | none => es
    | some display =>
      { es with
        acls := es.acls ++ [([display],
          hostsOf env PARSE_NO_PAT (line.2.filter fun w => (flagOf w).isNone),
          line.2.foldl (fun flags w => flags ||| (flagOf w).getD 0) (displayFlags line.1).1)] }

def Entries.listenDefault (env : Env) (es : Entries) : Entries :=
  if es.listens = [] then
    { es with listens := [(none, hostsOf env PARSE_ALL env.XDM_DEFAULT_MCAST_ADDR6.toList)] }
  else es

/-- The entries of a file that is accepted. -/
def fileEntries (env : Env) (file : Option Bytes) : Entries :=
  match file with
  | none => .empty
  | some file =>
    if (readTables env file).rejected then .empty
    else ((readLines file).foldl (Entries.addLine env) .empty).listenDefault env

/-! ## Well-formed tables -/

/-- The characters that the daemon stores for a host. -/
def HostEntry.chars : HostEntry → Nat
  | .alias p => p.1.length + 1
  | .address ai => ai.addr.length
  | .pattern p => p.1.length + 1
  | .broadcast => 0

def Tables.chars (t : Tables) : Nat :=
  (t.hostList.map HostEntry.chars).sum + (t.aliasList.map fun a => a.name.1.length + 1).sum

/-- Every start index plus length stays within the host table, and the characters are enough.  While
a line is read, `lo` characters are counted for an entry that is not there yet, and `hi` more may
be too many. -/
structure Tables.Wf (t : Tables) (lo hi : Nat) : Prop where
  iface : ∀ l ∈ t.listenList, ∀ i, l.iface = some i → i < t.nHosts
  mcasts : ∀ l ∈ t.listenList, l.mcasts + l.nmcasts ≤ t.nHosts
  aliases : ∀ a ∈ t.aliasList, a.hosts + a.nhosts ≤ t.nHosts
  entries : ∀ a ∈ t.acList, a.entries + a.nentries ≤ t.nHosts
  hosts : ∀ a ∈ t.acList, a.hosts + a.nhosts ≤ t.nHosts
  flags : ∀ a ∈ t.acList, a.flags.toNat < 4
  enough : t.chars + lo ≤ t.nChars
  close : t.nChars ≤ t.chars + t.acList.length + hi

theorem Tables.wf_empty : Tables.empty.Wf 0 0 where
  iface := nofun
  mcasts := nofun
  aliases := nofun
  entries := nofun
  hosts := nofun
  flags := nofun
  enough := Nat.le_refl 0
  close := Nat.le_refl 0

/-! ## Hosts -/

theorem parseHost_fst (env : Env) (parse : BitVec 32) (w : CStr) (len : Nat) :
    (parseHost env parse w len).map (·.1) = hostOf env parse w := by
  unfold hostOf parseHost
  split
  · rfl
  split
  · rfl
  split
  · rfl
  · cases env.getaddrinfo w <;> rfl

/-- What is counted for a host; a prefix makes the count too large. -/
theorem parseHost_chars {h : HostEntry} {n : Nat} (hp : parseHost env parse w len = some (h, n))
    (hlen : w.1.length ≤ len) : h.chars ≤ n ∧ n + w.1.length ≤ h.chars + len := by
  unfold parseHost at hp
  split at hp
  · cases hp
    exact ⟨Nat.le_refl _, by rw [HostEntry.chars]; omega⟩
  split at hp
  · rename_i ha
    cases hp
    have hpos : (CStr.next w).1.length + 1 = w.1.length := by
      show w.1.tail.length + 1 = w.1.length
      rw [List.length_tail]
      have hne : w.1 ≠ [] := by
        intro h0
        rw [h0] at ha
        cases ha.2
      have := List.length_pos_iff.mpr hne
      omega
    exact ⟨by rw [HostEntry.chars]; omega, by rw [HostEntry.chars]; omega⟩
  split at hp
  · cases hp
    exact ⟨by rw [HostEntry.chars]; omega, by rw [HostEntry.chars]; omega⟩
  · obtain ⟨ai, -, heq⟩ := Option.map_eq_some_iff.mp hp
    cases heq
    exact ⟨Nat.le_refl _, by rw [HostEntry.chars]; omega⟩

/-- Hosts were put at the end of the table, and `extra` characters too many were counted. -/
structure Added (t : Tables) (l : List HostEntry) (extra : Nat) (t' : Tables) : Prop where
  hostList : t'.hostList = t.hostList ++ l
  enough : t.nChars + (l.map HostEntry.chars).sum ≤ t'.nChars
  close : t'.nChars ≤ t.nChars + (l.map HostEntry.chars).sum + extra
  listenList : t'.listenList = t.listenList
  aliasList : t'.aliasList = t.aliasList
  acList : t'.acList = t.acList

theorem Added.refl (t : Tables) : Added t [] 0 t := by
  constructor <;> simp

theorem Added.trans {t'' : Tables} {l l' : List HostEntry} {m n : Nat} (h : Added t l m t')
    (h' : Added t' l' n t'') : Added t (l ++ l') (m + n) t'' where
  hostList := by rw [h'.hostList, h.hostList, List.append_assoc]
  enough := by
    have h1 := h.enough
    have h2 := h'.enough
    rw [List.map_append, List.sum_append]
    omega
  close := by
    have h1 := h.close
    have h2 := h'.close
    rw [List.map_append, List.sum_append]
    omega
  listenList := h'.listenList.trans h.listenList
  aliasList := h'.aliasList.trans h.aliasList
  acList := h'.acList.trans h.acList

variable (env parse) in
theorem addHost_added (hlen : w.1.length ≤ len) :
    Added t (hostOf env parse w).toList (len - w.1.length) (t.addHost env parse w len).1 := by
  rw [← parseHost_fst env parse w len]
  unfold Tables.addHost
  cases hp : parseHost env parse w len with
  | none =>
    exact ⟨(List.append_nil _).symm, Nat.le_refl _, Nat.le_add_right _ _, rfl, rfl, rfl⟩
  | some r =>
    have hc := parseHost_chars hp hlen
    have hsum : ((some r).map (·.1)).toList.map HostEntry.chars = [r.1.chars] := rfl
    refine ⟨rfl, ?_, ?_, rfl, rfl, rfl⟩ <;> rw [hsum, List.sum_singleton] <;> dsimp only <;> omega

variable (env parse len) in
theorem addHost_snd : (t.addHost env parse w len).2 = (hostOf env parse w).isSome := by
  rw [← parseHost_fst env parse w len]
  unfold Tables.addHost
  cases parseHost env parse w len <;> rfl

variable (env parse) in
theorem addWord_added (st : Tables × Nat × Bool) :
    Added st.1 (hostOf env parse w).toList 0 (Tables.addWord env parse st w).1 ∧
      (Tables.addWord env parse st w).2.1 = st.2.1 + (hostOf env parse w).toList.length := by
  have hadd := addHost_added env parse (t := st.1) (Nat.le_refl w.1.length)
  have hsnd := addHost_snd env parse w.1.length (t := st.1) (w := w)
  rw [Nat.sub_self] at hadd
  unfold Tables.addWord
  cases hh : hostOf env parse w with
  | none =>
    rw [hh] at hsnd hadd
    split
    · rename_i he
      rw [he] at hsnd
      cases hsnd
    · rename_i he
      rw [he] at hadd
      exact ⟨hadd, rfl⟩
  | some h =>
    rw [hh] at hsnd hadd
    split
    · rename_i he
      rw [he] at hadd
      exact ⟨hadd, rfl⟩
    · rename_i he
      rw [he] at hsnd
      cases hsnd

variable (env parse) in
/-- A list of hosts is put at the end of the table. -/
theorem addHosts_added (words : List CStr) :
    Added t (hostsOf env parse words) 0 (t.addHosts env parse words).1 ∧
      (t.addHosts env parse words).2.1 = (hostsOf env parse words).length := by
  suffices h : ∀ (words : List CStr) (st : Tables × Nat × Bool),
      Added st.1 (hostsOf env parse words) 0 (words.foldl (Tables.addWord env parse) st).1 ∧
        (words.foldl (Tables.addWord env parse) st).2.1 =
          st.2.1 + (hostsOf env parse words).length by
    have hw := h words (t, 0, false)
    rwa [Nat.zero_add] at hw
  intro words
  induction words with
  | nil => exact fun st => ⟨Added.refl st.1, rfl⟩
  | cons w words ih =>
    intro st
    obtain ⟨h1, h2⟩ := addWord_added env parse (w := w) st
    obtain ⟨h3, h4⟩ := ih (Tables.addWord env parse st w)
    have hcons : hostsOf env parse (w :: words) =
        (hostOf env parse w).toList ++ hostsOf env parse words := by
      unfold hostsOf
      rw [List.filterMap_cons]
      cases hostOf env parse w <;> rfl
    rw [List.foldl_cons, hcons]
    exact ⟨h1.trans h3, by rw [h4, h2, List.length_append, Nat.add_assoc]⟩

/-! ## Slices -/

theorem Added.nHosts {l : List HostEntry} {n : Nat} (h : Added t l n t') :
    t'.nHosts = t.nHosts + l.length := by
  unfold Tables.nHosts
  rw [h.hostList, List.length_append]

theorem slice_old {l : List HostEntry} {n f k : Nat} (h : Added t l n t')
    (hle : f + k ≤ t.nHosts) : t'.slice f k = t.slice f k := by
  unfold Tables.nHosts at hle
  unfold Tables.slice
  rw [h.hostList, List.drop_append_of_le_length (by omega),
    List.take_append_of_le_length (by rw [List.length_drop]; omega)]

/-- A list that was added is what the table has at its place. -/
theorem slice_new {l : List HostEntry} {n : Nat} (h : Added t l n t') :
    t'.slice t.nHosts l.length = l := by
  unfold Tables.slice Tables.nHosts
  rw [h.hostList, List.drop_left, List.take_length]

/-! ## Steps of a line -/

variable {lo hi n : Nat} {l : List HostEntry}

theorem Added.wf (hw : t.Wf lo hi) (h : Added t l n t') : t'.Wf lo (hi + n) := by
  have hn := h.nHosts
  have hchars : t'.chars = t.chars + (l.map HostEntry.chars).sum := by
    unfold Tables.chars
    rw [h.hostList, h.aliasList, List.map_append, List.sum_append]
    omega
  have h1 := h.enough
  have h2 := h.close
  have h3 := hw.enough
  have h4 := hw.close
  refine ⟨?_, ?_, ?_, ?_, ?_, ?_, ?_, ?_⟩
  · rw [h.listenList, hn]
    exact fun e he i hi => Nat.lt_of_lt_of_le (hw.iface e he i hi) (Nat.le_add_right _ _)
  · rw [h.listenList, hn]
    exact fun e he => Nat.le_trans (hw.mcasts e he) (Nat.le_add_right _ _)
  · rw [h.aliasList, hn]
    exact fun e he => Nat.le_trans (hw.aliases e he) (Nat.le_add_right _ _)
  · rw [h.acList, hn]
    exact fun e he => Nat.le_trans (hw.entries e he) (Nat.le_add_right _ _)
  · rw [h.acList, hn]
    exact fun e he => Nat.le_trans (hw.hosts e he) (Nat.le_add_right _ _)
  · rw [h.acList]
    exact hw.flags
  · omega
  · rw [h.acList]
    omega

/-- New hosts do not change the entries that are there. -/
theorem Added.entries (hw : t.Wf lo hi) (h : Added t l n t') : t'.entries = t.entries := by
  have hlisten : t'.listenList.map t'.listenEntry = t.listenList.map t.listenEntry := by
    rw [h.listenList]
    refine List.map_congr_left fun e he => ?_
    unfold Tables.listenEntry
    rw [slice_old h (hw.mcasts e he)]
    cases hi : e.iface with
    | none => rfl
    | some i =>
      have hlt := hw.iface e he i hi
      rw [Option.bind_some, Option.bind_some, h.hostList, List.getElem?_append_left hlt]
  have halias : t'.aliasList.map t'.aliasEntry = t.aliasList.map t.aliasEntry := by
    rw [h.aliasList]
    refine List.map_congr_left fun e he => ?_
    unfold Tables.aliasEntry
    rw [slice_old h (hw.aliases e he)]
  have hacl : t'.acList.map t'.aclEntry = t.acList.map t.aclEntry := by
    rw [h.acList]
    refine List.map_congr_left fun e he => ?_
    unfold Tables.aclEntry
    rw [slice_old h (hw.entries e he), slice_old h (hw.hosts e he)]
  unfold Tables.entries
  rw [hlisten, halias, hacl]

theorem wf_count (hw : t.Wf lo hi) (k : Nat) :
    Tables.Wf { t with nChars := t.nChars + k } (lo + k) (hi + k) := by
  have h3 := hw.enough
  have h4 := hw.close
  refine ⟨hw.iface, hw.mcasts, hw.aliases, hw.entries, hw.hosts, hw.flags, ?_, ?_⟩
  · show t.chars + (lo + k) ≤ t.nChars + k
    omega
  · show t.nChars + k ≤ t.chars + t.acList.length + (hi + k)
    omega

theorem wf_pushListen (hw : t.Wf lo hi) {e : ListenEntry}
    (hi' : ∀ i, e.iface = some i → i < t.nHosts) (hm : e.mcasts + e.nmcasts ≤ t.nHosts) :
    Tables.Wf { t with listenList := t.listenList ++ [e] } lo hi :=
  ⟨fun e' he => by
      rcases List.mem_append.mp he with he | he
      · exact hw.iface e' he
      · cases List.mem_singleton.mp he
        exact hi',
    fun e' he => by
      rcases List.mem_append.mp he with he | he
      · exact hw.mcasts e' he
      · cases List.mem_singleton.mp he
        exact hm,
    hw.aliases, hw.entries, hw.hosts, hw.flags, hw.enough, hw.close⟩

theorem wf_pushAlias {e : AliasEntry} (hw : t.Wf (lo + (e.name.1.length + 1)) (hi + (e.name.1.length + 1)))
    (he : e.hosts + e.nhosts ≤ t.nHosts) :
    Tables.Wf { t with aliasList := t.aliasList ++ [e] } lo hi := by
  have hchars : Tables.chars { t with aliasList := t.aliasList ++ [e] } =
      t.chars + (e.name.1.length + 1) := by
    unfold Tables.chars
    rw [List.map_append, List.sum_append, List.map_singleton, List.sum_singleton, Nat.add_assoc]
  have h3 := hw.enough
  have h4 := hw.close
  refine ⟨hw.iface, hw.mcasts, fun e' he' => ?_, hw.entries, hw.hosts, hw.flags, ?_, ?_⟩
  · rcases List.mem_append.mp he' with he' | he'
    · exact hw.aliases e' he'
    · cases List.mem_singleton.mp he'
      exact he
  · rw [hchars]
    show t.chars + (e.name.1.length + 1) + lo ≤ t.nChars
    omega
  · rw [hchars]
    show t.nChars ≤ t.chars + (e.name.1.length + 1) + t.acList.length + hi
    omega

theorem wf_pushAcl (hw : t.Wf lo (hi + 1)) {e : AclEntry} (h1 : e.entries + e.nentries ≤ t.nHosts)
    (h2 : e.hosts + e.nhosts ≤ t.nHosts) (hf : e.flags.toNat < 4) :
    Tables.Wf { t with acList := t.acList ++ [e] } lo hi := by
  have h4 := hw.close
  refine ⟨hw.iface, hw.mcasts, hw.aliases, fun e' he => ?_, fun e' he => ?_, fun e' he => ?_,
    hw.enough, ?_⟩
  · rcases List.mem_append.mp he with he | he
    · exact hw.entries e' he
    · cases List.mem_singleton.mp he
      exact h1
  · rcases List.mem_append.mp he with he | he
    · exact hw.hosts e' he
    · cases List.mem_singleton.mp he
      exact h2
  · rcases List.mem_append.mp he with he | he
    · exact hw.flags e' he
    · cases List.mem_singleton.mp he
      exact hf
  · show t.nChars ≤ t.chars + (t.acList ++ [e]).length + hi
    rw [List.length_append, List.length_singleton]
    omega

theorem entries_pushListen (t : Tables) (e : ListenEntry) :
    Tables.entries { t with listenList := t.listenList ++ [e] } =
      { t.entries with listens := t.entries.listens ++ [t.listenEntry e] } := by
  unfold Tables.entries
  rw [List.map_append]
  rfl

theorem entries_pushAlias (t : Tables) (e : AliasEntry) :
    Tables.entries { t with aliasList := t.aliasList ++ [e] } =
      { t.entries with aliases := t.entries.aliases ++ [t.aliasEntry e] } := by
  unfold Tables.entries
  rw [List.map_append]
  rfl

theorem entries_pushAcl (t : Tables) (e : AclEntry) :
    Tables.entries { t with acList := t.acList ++ [e] } =
      { t.entries with acls := t.entries.acls ++ [t.aclEntry e] } := by
  unfold Tables.entries
  rw [List.map_append]
  rfl

/-! ## Lines -/

theorem length_next {c : UInt8} (h : w.1.head? = some c) :
    (CStr.next w).1.length + 1 = w.1.length := by
  show w.1.tail.length + 1 = w.1.length
  cases hw : w.1 with
  | nil =>
    rw [hw] at h
    cases h
  | cons a l => rfl

theorem addAlias_spec (hw : t.Wf 0 0) (hhead : w.1.head? = some 37) (words : List CStr) :
    (t.addAlias env w words).Wf 0 0 ∧
      (t.addAlias env w words).entries =
        { t.entries with
          aliases := t.entries.aliases ++ [(CStr.next w, hostsOf env PARSE_NO_BCAST words)] } := by
  have hlen := length_next hhead
  have hw1 := wf_count hw w.1.length
  obtain ⟨hadd, hcount⟩ := addHosts_added env PARSE_NO_BCAST
    (t := { t with nChars := t.nChars + w.1.length }) words
  have hw2 := hadd.wf hw1
  have hold := hadd.entries hw1
  have hnew := slice_new hadd
  have hn := hadd.nHosts
  unfold Tables.addAlias
  dsimp only
  constructor
  · refine wf_pushAlias ?_ ?_
    · rwa [hlen]
    · dsimp only
      rw [hcount, hn]
      exact Nat.le_refl _
  · rw [entries_pushAlias, hold, hcount]
    unfold Tables.aliasEntry
    dsimp only
    rw [show t.nHosts = Tables.nHosts { t with nChars := t.nChars + w.1.length } from rfl, hnew]
    rfl

variable (env) in
theorem addIface_spec (words : List CStr) :
    let i := t.addIface env words.head?
    Added t (ifaceOf env words).toList 0 i.1 ∧
      i.2 = (ifaceOf env words).map fun _ => t.nHosts := by
  unfold ifaceOf Tables.addIface
  cases words with
  | nil => exact ⟨Added.refl t, rfl⟩
  | cons w words =>
    dsimp only [List.head?_cons, Option.bind_some]
    split
    · exact ⟨Added.refl t, rfl⟩
    · have hadd := addHost_added env PARSE_LISTEN (t := t)
        (Nat.le_refl w.1.length)
      have hsnd := addHost_snd env PARSE_LISTEN w.1.length (t := t) (w := w)
      rw [Nat.sub_self] at hadd
      split
      · rename_i he
        rw [he] at hadd hsnd
        obtain ⟨h, hh⟩ := Option.isSome_iff_exists.mp hsnd.symm
        exact ⟨hadd, by rw [hh]; rfl⟩
      · rename_i he
        rw [he] at hadd hsnd
        have hh := Option.not_isSome_iff_eq_none.mp (Bool.eq_false_iff.mp hsnd.symm)
        exact ⟨hadd, by rw [hh]; rfl⟩

theorem addListen_spec (hw : t.Wf 0 0) (words : List CStr) :
    (t.addListen env words).Wf 0 0 ∧
      (t.addListen env words).entries =
        { t.entries with
          listens := t.entries.listens ++
            [(ifaceOf env words, hostsOf env PARSE_LISTEN words.tail)] } := by
  obtain ⟨hadd, hiface⟩ := addIface_spec env (t := t) words
  obtain ⟨hadd', hcount⟩ := addHosts_added env PARSE_LISTEN
    (t := (t.addIface env words.head?).1) words.tail
  have hw1 := hadd.wf hw
  have hw2 := hadd'.wf hw1
  have hold := (hadd'.entries hw1).trans (hadd.entries hw)
  have hnew := slice_new hadd'
  have hn := hadd.nHosts
  have hn' := hadd'.nHosts
  have hboth := hadd.trans hadd'
  unfold Tables.addListen
  dsimp only
  constructor
  · refine wf_pushListen hw2 (fun i hi => ?_) ?_
    · rw [hiface] at hi
      obtain ⟨h, hh, rfl⟩ := Option.map_eq_some_iff.mp hi
      rw [hn', hn, hh]
      simp
      omega
    · dsimp only
      rw [hcount]
      exact Nat.le_of_eq hn'.symm
  · rw [entries_pushListen, hold, hcount]
    unfold Tables.listenEntry
    dsimp only
    rw [hnew, hiface]
    cases hh : ifaceOf env words with
    | none => rfl
    | some h =>
      rw [hh] at hboth
      have hget : (Tables.addHosts env (t.addIface env words.head?).1 PARSE_LISTEN
          words.tail).1.hostList[t.nHosts]? = some h := by
        rw [hboth.hostList]
        unfold Tables.nHosts
        rw [List.getElem?_append_right (Nat.le_refl _), Nat.sub_self]
        rfl
      rw [Option.map_some, Option.bind_some, hget]

theorem displayFlags_length (w : CStr) : (displayFlags w).2.1.length ≤ w.1.length ∧
    w.1.length ≤ (displayFlags w).2.1.length + 1 ∧ (displayFlags w).1.toNat < 4 := by
  unfold displayFlags
  split
  · rename_i h
    have hlen := length_next h
    exact ⟨by dsimp only; omega, by dsimp only; omega, (by decide : a_notAllowed.toNat < 4)⟩
  split
  · rename_i h
    have hlen := length_next h
    exact ⟨by dsimp only; omega, by dsimp only; omega, Nat.zero_lt_succ 3⟩
  · exact ⟨Nat.le_refl _, Nat.le_succ _, Nat.zero_lt_succ 3⟩

theorem flags_lt (words : List CStr) : ∀ {flags : BitVec 32}, flags.toNat < 4 →
    (words.foldl (fun flags w => flags ||| (flagOf w).getD 0) flags).toNat < 4 := by
  induction words with
  | nil => exact fun h => h
  | cons w words ih =>
    intro flags h
    refine ih ?_
    have hf : ((flagOf w).getD 0).toNat < 2 ^ 2 := by
      unfold flagOf
      split
      · decide
      split <;> decide
    rw [BitVec.toNat_or]
    exact Nat.or_lt_two_pow h hf

theorem addHost_none (hh : hostOf env parse w = none) : t.addHost env parse w len = (t, false) := by
  rw [← parseHost_fst env parse w len, Option.map_eq_none_iff] at hh
  unfold Tables.addHost
  rw [hh]

theorem Added.setError {error : Bool} (h : Added t l n t') :
    Added t l n { t' with error := error } :=
  ⟨h.hostList, h.enough, h.close, h.listenList, h.aliasList, h.acList⟩

theorem addAcl_spec (hw : t.Wf 0 0) (w : CStr) (words : List CStr) :
    (t.addAcl env w words).Wf 0 0 ∧
      (t.addAcl env w words).entries =
        match hostOf env PARSE_NO_BCAST (displayFlags w).2 with
        | none => t.entries
        | some display =>
          { t.entries with
            acls := t.entries.acls ++ [([display],
              hostsOf env PARSE_NO_PAT (words.filter fun w => (flagOf w).isNone),
              words.foldl (fun flags w => flags ||| (flagOf w).getD 0) (displayFlags w).1)] } := by
  obtain ⟨hle, hge, hflags⟩ := displayFlags_length w
  have hf := flags_lt words hflags
  unfold Tables.addAcl
  cases hd : displayFlags w with
  | mk flags display =>
    rw [hd] at hle hge hf
    dsimp only at hle hge hf ⊢
    cases hh : hostOf env PARSE_NO_BCAST display with
    | none =>
      -- the entry is dropped, and only the hosts behind it are added
      rw [addHost_none hh]
      dsimp only
      have hadd : Added t [] 0
          (if false = false ∧ flags &&& a_notAllowed ≠ 0 then { t with error := true } else t) := by
        split
        · exact (Added.refl t).setError
        · exact Added.refl t
      have hboth := hadd.trans (addHosts_added env PARSE_NO_PAT
        (words.filter fun w => (flagOf w).isNone)).1
      exact ⟨hboth.wf hw, hboth.entries hw⟩
    | some h =>
      have hsnd := addHost_snd env PARSE_NO_BCAST w.1.length (t := t) (w := display)
      have hadd := addHost_added env PARSE_NO_BCAST (t := t) hle
      rw [hh] at hsnd hadd
      cases he : t.addHost env PARSE_NO_BCAST display w.1.length with
      | mk t1 ok =>
        rw [he] at hsnd hadd
        cases hsnd
        dsimp only at hadd ⊢
        rw [if_neg (show ¬(true = false ∧ flags &&& a_notAllowed ≠ 0) from
          fun hc => Bool.noConfusion hc.1), if_pos rfl]
        obtain ⟨hadd', hcount⟩ := addHosts_added env PARSE_NO_PAT (t := t1)
          (words.filter fun w => (flagOf w).isNone)
        have hw1 := hadd.wf hw
        have hw2 := hadd'.wf hw1
        have hold := (hadd'.entries hw1).trans (hadd.entries hw)
        have hn := hadd.nHosts
        have hn' := hadd'.nHosts
        have hslice := slice_old hadd' (f := t.nHosts) (k := 1) (by rw [hn]; exact Nat.le_refl _)
        have hone : t1.slice t.nHosts 1 = [h] := slice_new hadd
        have hnew := slice_new hadd'
        constructor
        · refine wf_pushAcl ?_ ?_ ?_ hf
          · have hle1 : 0 + (w.1.length - display.1.length) + 0 ≤ 0 + 1 := by omega
            exact ⟨hw2.iface, hw2.mcasts, hw2.aliases, hw2.entries, hw2.hosts, hw2.flags,
              hw2.enough, Nat.le_trans hw2.close (Nat.add_le_add_left hle1 _)⟩
          · dsimp only
            rw [hn', hn]
            simp
          · dsimp only
            rw [hcount]
            exact Nat.le_of_eq hn'.symm
        · rw [entries_pushAcl, hold, hcount]
          unfold Tables.aclEntry
          dsimp only
          rw [hslice, hone, hnew]

variable (env) in
theorem addLine_spec (hw : t.Wf 0 0) (line : CStr × List CStr) :
    (t.addLine env line).Wf 0 0 ∧ (t.addLine env line).entries = t.entries.addLine env line := by
  unfold Tables.addLine Entries.addLine
  split
  · rename_i h
    exact addAlias_spec hw h line.2
  split
  · exact addListen_spec hw line.2
  · exact addAcl_spec hw line.1 line.2

variable (env) in
/-- **The tables follow the lines.** -/
theorem addLines_spec (lines : List (CStr × List CStr)) : ∀ {t : Tables}, t.Wf 0 0 →
    (lines.foldl (Tables.addLine env) t).Wf 0 0 ∧
      (lines.foldl (Tables.addLine env) t).entries =
        lines.foldl (Entries.addLine env) t.entries := by
  induction lines with
  | nil => exact fun hw => ⟨hw, rfl⟩
  | cons line lines ih =>
    intro t hw
    obtain ⟨h1, h2⟩ := addLine_spec env hw line
    obtain ⟨h3, h4⟩ := ih h1
    rw [List.foldl_cons, List.foldl_cons, ← h2]
    exact ⟨h3, h4⟩

variable (env) in
theorem defaultHost_spec :
    Added t (hostsOf env PARSE_ALL env.XDM_DEFAULT_MCAST_ADDR6.toList) 0 (t.defaultHost env).1 ∧
      (if (t.defaultHost env).2 then 1 else 0) =
        (hostsOf env PARSE_ALL env.XDM_DEFAULT_MCAST_ADDR6.toList).length := by
  unfold Tables.defaultHost
  cases env.XDM_DEFAULT_MCAST_ADDR6 with
  | none => exact ⟨Added.refl t, rfl⟩
  | some mcast =>
    have hadd := addHost_added env PARSE_ALL (t := t)
      (Nat.le_refl mcast.1.length)
    have hsnd := addHost_snd env PARSE_ALL mcast.1.length (t := t) (w := mcast)
    have hone : hostsOf env PARSE_ALL [mcast] = (hostOf env PARSE_ALL mcast).toList := by
      unfold hostsOf
      rw [List.filterMap_cons, List.filterMap_nil]
      cases hostOf env PARSE_ALL mcast <;> rfl
    rw [Nat.sub_self] at hadd
    rw [Option.toList_some, hone]
    refine ⟨hadd, ?_⟩
    dsimp only
    rw [hsnd]
    cases hostOf env PARSE_ALL mcast <;> rfl

variable (env) in
theorem listenDefault_spec (hw : t.Wf 0 0) :
    (t.listenDefault env).Wf 0 0 ∧
      (t.listenDefault env).entries = t.entries.listenDefault env := by
  have hnil : t.entries.listens = [] ↔ t.listenList = [] := List.map_eq_nil_iff
  unfold Tables.listenDefault Entries.listenDefault
  split
  · rename_i hl
    rw [if_pos (hnil.mpr hl)]
    obtain ⟨hadd, hcount⟩ := defaultHost_spec env (t := t)
    have hlist := hadd.listenList.trans hl
    have hw1 := hadd.wf hw
    have hpush := wf_pushListen (e := ⟨none, t.nHosts, (hostsOf env PARSE_ALL
      env.XDM_DEFAULT_MCAST_ADDR6.toList).length⟩) hw1 nofun (Nat.le_of_eq hadd.nHosts.symm)
    have hent := entries_pushListen (Tables.defaultHost env t).1 ⟨none, t.nHosts, (hostsOf env
      PARSE_ALL env.XDM_DEFAULT_MCAST_ADDR6.toList).length⟩
    rw [hlist, List.nil_append] at hpush hent
    rw [hadd.entries hw, hnil.mpr hl, Tables.listenEntry, slice_new hadd] at hent
    dsimp only
    rw [hcount]
    exact ⟨hpush, hent⟩
  · rename_i hl
    rw [if_neg fun h => hl (hnil.mp h)]
    exact ⟨hw, rfl⟩

/-- **The tables that are sent are well formed and describe the entries of the file.** -/
theorem readAccessFile_spec (env : Env) (file : Option Bytes) :
    (readAccessFile env file).Wf 0 0 ∧
      (readAccessFile env file).entries = fileEntries env file := by
  unfold readAccessFile fileEntries
  cases file with
  | none => exact ⟨Tables.wf_empty, rfl⟩
  | some file =>
    dsimp only
    split
    · exact ⟨Tables.wf_empty, rfl⟩
    · obtain ⟨h1, h2⟩ := addLines_spec env (readLines file) Tables.wf_empty
      obtain ⟨h3, h4⟩ := listenDefault_spec env h1
      rw [h2] at h4
      exact ⟨h3, h4⟩

end Kdm.Xaccess
