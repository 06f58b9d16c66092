import Kdm.Lib.Paths
import Kdm.Xaccess.Transfer
import Kdm.Xdmcp.Pattern

/-!
# Aliases in aliases

An alias pattern in a list of hosts stands for the hosts of the aliases that it matches, which may
name aliases again.  The config reader follows them to `MAX_DEPTH` and refuses what goes deeper
(`checkHostlist`); the daemon follows them without a limit (`scanHostlist`, `scanEntrylist`).

* `Expands` — a list names an alias with another list.
* `Expandable` — what is wanted of a file.

Principal result: `expandable_of_fits`.
-/

namespace Kdm.Xaccess

open Codec Ipc Paths
open Xdmcp (AccArr)

/-! ## What is wanted -/

/-- A pattern in the list matches an alias, and the other list is that of the alias. -/
inductive Expands (acc : AccArr) : List Xdmcp.HostEntry → List Xdmcp.HostEntry → Prop where
  | follow {p : Bytes} {a : Xdmcp.AliasEntry} {hosts : List Xdmcp.HostEntry}
      (hp : .alias p ∈ hosts) (ha : a ∈ acc.aliasList)
      (hm : Xdmcp.patternMatch a.name p = true) : Expands acc hosts (acc.slice a.hosts a.nhosts)

/-- A list that leads to itself can be reached. -/
def Cyclic (acc : AccArr) (hosts : List Xdmcp.HostEntry) : Prop :=
  ∃ l, Relation.ReflTransGen (Expands acc) hosts l ∧ Relation.TransGen (Expands acc) l l

/-- For every entry of the access list and every client the scans come to an end, and follow no more
than `MAX_DEPTH` aliases in aliases. -/
structure Terminates (acc : AccArr) : Prop where
  entries : ∀ e ∈ acc.acList, ∀ names clientAddress connectionType,
    (Xdmcp.scanEntrylist acc names clientAddress connectionType (MAX_DEPTH + 1)
      (acc.slice e.entries e.nentries)).isSome
  hosts : ∀ e ∈ acc.acList, ∀ connectionType broadcast localAddress,
    (Xdmcp.scanHostlist acc connectionType broadcast localAddress (MAX_DEPTH + 1)
      (acc.slice e.hosts e.nhosts)).isSome

/-- What the code says of the name of an alias and an alias pattern is what `patternMatch` says. -/
def Matched (acc : AccArr) : Prop :=
  ∀ a ∈ acc.aliasList, ∀ p, .alias p ∈ acc.hostList →
    Xdmcp.matchAt (p ++ [0]) (a.name ++ [0]) = some (Xdmcp.patternMatch a.name p)

/-- With the tables that the daemon gets the scans come to an end, and a file with a cycle is
refused. -/
structure Expandable (heap : Heap) (env : Env) (file : Bytes) : Prop where
  terminates : ∀ bytes rest data rest', (readAccessFile env (some file)).send = some bytes →
    scanAccessDatabase heap (bytes ++ rest) = some (data, rest') →
    Matched data.acc ∧ Terminates data.acc
  refused : Matched (readTables env file).acc ∧ ∀ e ∈ (readTables env file).acc.acList,
    (Cyclic (readTables env file).acc ((readTables env file).acc.slice e.entries e.nentries) ∨
      Cyclic (readTables env file).acc ((readTables env file).acc.slice e.hosts e.nhosts)) →
    readAccessFile env (some file) = .empty

/-- No alias pattern ends in a backslash that is reached at the end of the name of an alias. -/
def Quoted (t : Tables) : Prop :=
  ∀ a ∈ t.aliasList, ∀ p, .alias p ∈ t.hostList → (Xdmcp.parse p.1).2 = true →
    ¬ Xdmcp.Overrun (Xdmcp.parse p.1).1 a.name.1

/-! ## The check -/

section Check

variable {t : Tables} {env : Env}

theorem mem_map_entry {p : Bytes} {hosts : List HostEntry}
    (h : Xdmcp.HostEntry.alias p ∈ hosts.map HostEntry.entry) :
    ∃ q : CStr, q.1 = p ∧ HostEntry.alias q ∈ hosts := by
  obtain ⟨e, he, hp⟩ := List.mem_map.mp h
  cases e with
  | «alias» q =>
    cases hp
    exact ⟨q, rfl, he⟩
  | address ai => cases hp
  | pattern q => cases hp
  | broadcast => cases hp

theorem matched_acc (h : Quoted t) : Matched t.acc := by
  intro a ha p hp
  obtain ⟨b, hb, rfl⟩ := List.mem_map.mp ha
  obtain ⟨q, rfl, hq⟩ := mem_map_entry hp
  exact Xdmcp.matchAt_patternMatch q.2 b.name.2 (h b hb q hq)

/-- **What the config reader lets through** has no long paths. -/
theorem not_path_of_checkHostlist {checkNot : Bool} {depth : Nat} {hosts : List HostEntry}
    (h : checkHostlist t checkNot depth hosts = false) :
    ¬ Path (Expands t.acc) (depth + 1) (hosts.map HostEntry.entry) := by
  induction depth generalizing hosts with
  | zero =>
    intro hpath
    obtain ⟨_, ⟨hp, -, -⟩, -⟩ := path_succ_iff.mp hpath
    obtain ⟨q, -, hq⟩ := mem_map_entry hp
    exact absurd rfl (List.any_eq_false.mp h _ hq)
  | succ depth ih =>
    intro hpath
    obtain ⟨_, ⟨hp, ha, hm⟩, hpath⟩ := path_succ_iff.mp hpath
    obtain ⟨q, rfl, hq⟩ := mem_map_entry hp
    obtain ⟨b, hb, rfl⟩ := List.mem_map.mp ha
    have hany := List.any_eq_false.mp h _ hq
    dsimp only at hany
    rw [Bool.not_eq_true, Bool.or_eq_false_iff] at hany
    have hb' := List.any_eq_false.mp hany.1 b (List.mem_filter.mpr ⟨hb, hm⟩)
    rw [Bool.not_eq_true, Bool.or_eq_false_iff] at hb'
    refine ih hb'.2 ?_
    rwa [← slice_acc]

/-- The lists of the entries of tables that are not refused have no long paths. -/
theorem not_path_of_not_rejected (h : t.rejected = false) {e : Xdmcp.AclEntry}
    (he : e ∈ t.acc.acList) :
    ¬ Path (Expands t.acc) (MAX_DEPTH + 1) (t.acc.slice e.entries e.nentries) ∧
      ¬ Path (Expands t.acc) (MAX_DEPTH + 1) (t.acc.slice e.hosts e.nhosts) := by
  obtain ⟨a, ha, rfl⟩ := List.mem_map.mp he
  have hany := List.any_eq_false.mp (Bool.or_eq_false_iff.mp h).2 a ha
  rw [Bool.not_eq_true, Bool.or_eq_false_iff] at hany
  rw [slice_acc, slice_acc]
  exact ⟨not_path_of_checkHostlist hany.1, not_path_of_checkHostlist hany.2⟩

/-- **A cycle is refused.** -/
theorem rejected_of_cyclic {e : Xdmcp.AclEntry} (he : e ∈ t.acc.acList)
    (h : Cyclic t.acc (t.acc.slice e.entries e.nentries) ∨
      Cyclic t.acc (t.acc.slice e.hosts e.nhosts)) : t.rejected = true := by
  by_contra hr
  obtain ⟨h1, h2⟩ := not_path_of_not_rejected (Bool.not_eq_true _ ▸ hr) he
  rcases h with ⟨l, hl, hc⟩ | ⟨l, hl, hc⟩
  · exact h1 (path_of_cycle hl hc _)
  · exact h2 (path_of_cycle hl hc _)

end Check

/-! ## The scans -/

section Scans

theorem isSome_anyM {α : Type} {f : α → Option Bool} {l : List α}
    (h : ∀ a ∈ l, (f a).isSome) : (l.anyM f).isSome := by
  induction l with
  | nil => rfl
  | cons a l ih =>
    obtain ⟨b, hb⟩ := Option.isSome_iff_exists.mp (h a List.mem_cons_self)
    rw [List.anyM, hb]
    cases b with
    | true => rfl
    | false => exact ih fun a' ha => h a' (List.mem_cons_of_mem a ha)

theorem isSome_foldlM {α σ : Type} {f : σ → α → Option σ} {l : List α}
    (h : ∀ s, ∀ a ∈ l, (f s a).isSome) (s : σ) : (l.foldlM f s).isSome := by
  induction l generalizing s with
  | nil => rfl
  | cons a l ih =>
    obtain ⟨b, hb⟩ := Option.isSome_iff_exists.mp (h s a List.mem_cons_self)
    rw [List.foldlM_cons, hb]
    exact ih (fun s a' ha => h s a' (List.mem_cons_of_mem a ha)) b

variable {acc : AccArr} {depth : Nat} {hosts : List Xdmcp.HostEntry}

theorem not_path_of_expands {l : List Xdmcp.HostEntry}
    (h : ¬ Path (Expands acc) (depth + 1) hosts) (he : Expands acc hosts l) :
    ¬ Path (Expands acc) depth l :=
  fun hp => h (.step he hp)

/-- The depth of the stack that the scan of the entries needs. -/
theorem scanEntrylist_isSome (names : Xdmcp.Resolver) (clientAddress : Bytes)
    (connectionType : UInt16) (h : ¬ Path (Expands acc) depth hosts) :
    (Xdmcp.scanEntrylist acc names clientAddress connectionType depth hosts).isSome := by
  induction depth generalizing hosts with
  | zero => exact absurd (Path.start hosts) h
  | succ depth ih =>
    rw [Xdmcp.scanEntrylist]
    refine isSome_anyM fun e he => ?_
    cases e with
    | «alias» p =>
      refine isSome_anyM fun a ha => ?_
      split
      · rename_i hm
        exact ih (not_path_of_expands h (.follow he ha hm))
      · rfl
    | address type addr => rfl
    | pattern p => rfl
    | broadcast => rfl

theorem scanHostlist_isSome (connectionType : UInt16) (broadcast : Bool)
    (localAddress : Option Bytes) (h : ¬ Path (Expands acc) depth hosts) :
    (Xdmcp.scanHostlist acc connectionType broadcast localAddress depth hosts).isSome := by
  induction depth generalizing hosts with
  | zero => exact absurd (Path.start hosts) h
  | succ depth ih =>
    rw [Xdmcp.scanHostlist]
    refine isSome_foldlM (fun s e he => ?_) _
    obtain ⟨calls, haveLocalhost⟩ := s
    cases e with
    | «alias» p =>
      refine isSome_foldlM (fun s a ha => ?_) _
      obtain ⟨calls, haveLocalhost⟩ := s
      dsimp only
      split
      · rename_i hm
        rw [Option.isSome_map]
        exact ih (not_path_of_expands h (.follow he ha hm))
      · rfl
    | address type addr =>
      dsimp only
      split <;> rfl
    | pattern p => rfl
    | broadcast => rfl

end Scans

/-! ## Both ends -/

variable {heap heap' : Heap} {env : Env} {file : Bytes}

theorem terminates_of_not_rejected {t : Tables} (h : t.rejected = false) : Terminates t.acc where
  entries _ he names clientAddress connectionType :=
    scanEntrylist_isSome names clientAddress connectionType (not_path_of_not_rejected h he).1
  hosts _ he connectionType broadcast localAddress :=
    scanHostlist_isSome connectionType broadcast localAddress (not_path_of_not_rejected h he).2

theorem terminates_readAccessFile (env : Env) (file : Bytes) :
    Terminates (readAccessFile env (some file)).acc := by
  unfold readAccessFile
  dsimp only
  split
  · exact terminates_of_not_rejected rfl
  · rename_i h
    exact terminates_of_not_rejected (Bool.not_eq_true _ ▸ h)

theorem quoted_readAccessFile (h : Quoted (readTables env file)) :
    Quoted (readAccessFile env (some file)) := by
  unfold readAccessFile
  dsimp only
  split
  · exact fun a ha => by cases ha
  · exact h

/-- What the daemon reads, if it has the memory. -/
theorem acc_of_scan {t : Tables} (hw : t.Wf 0 0) (hfits : Fits heap' t) {bytes rest rest' : Bytes}
    {data : AccData} (hs : t.send = some bytes)
    (h : scanAccessDatabase heap (bytes ++ rest) = some (data, rest')) : data.acc = t.acc := by
  cases (send_body hfits).symm.trans hs
  simp only [List.append_assoc] at h
  rw [scan_counts] at h
  split at h
  · cases (recvTables_sent hw hfits rest).symm.trans h
    exact (hfits.exactly hw).acc
  · cases h

namespace Sample

/-- `%aaa` -/
def aliasWord : CStr := ⟨[37, 97, 97, 97], by decide⟩

/-- `*` -/
def starWord : CStr := ⟨[42], by decide⟩

/-- `%*` -/
def anyAlias : CStr := ⟨[37, 42], by decide⟩

/-- `BROADCAST` -/
def broadcastWord : CStr := ⟨[66, 82, 79, 65, 68, 67, 65, 83, 84], by decide⟩

def crowd (j k : Nat) : List CStr :=
  List.replicate j broadcastWord ++ anyAlias :: List.replicate k broadcastWord

/-- An alias, and an entry with many hosts. -/
def crowded (j k : Nat) : Bytes :=
  spaced [aliasWord] ++ 10 :: spaced (starWord :: crowd j k)

def crowdHosts (j k : Nat) : List HostEntry :=
  List.replicate j .broadcast ++ .alias starWord :: List.replicate k .broadcast

def crowdTables (j k : Nat) : Tables where
  hostList := .pattern starWord :: crowdHosts j k
  listenList := [⟨none, (HostEntry.pattern starWord :: crowdHosts j k).length, 0⟩]
  aliasList := [⟨CStr.next aliasWord, 0, 0, false⟩]
  acList := [⟨0, 1, 1, (crowdHosts j k).length, 0⟩]
  nChars := 8
  error := false

theorem readLines_crowded (j k : Nat) :
    readLines (crowded j k) = [(aliasWord, []), (starWord, crowd j k)] := by
  have hb : Plain broadcastWord := .of_all (by decide) rfl
  have hcrowd : ∀ w ∈ crowd j k, Plain w := by
    intro w hw
    rcases List.mem_append.mp hw with hw | hw
    · exact List.eq_of_mem_replicate hw ▸ hb
    rcases List.mem_cons.mp hw with rfl | hw
    · exact .of_all (by decide) rfl
    · exact List.eq_of_mem_replicate hw ▸ hb
  have hend : readLines [] = [] := by
    rw [readLines]
    split
    · rfl
    · rename_i h
      cases h
  have hsecond : readLines (spaced (starWord :: crowd j k) ++ []) = (starWord, crowd j k) :: readLines [] :=
    readLines_spaced (.of_all (by decide) rfl) hcrowd rfl
  have hfirst : readLines (crowded j k) =
      (aliasWord, []) :: readLines (10 :: spaced (starWord :: crowd j k)) :=
    readLines_spaced (.of_all (by decide) rfl) (fun _ h => by cases h) rfl
  rw [List.append_nil, hend] at hsecond
  rw [hfirst, readLines_newline, hsecond]

theorem addWords_broadcast (env : Env) (n : Nat) (t : Tables) (i : Nat) (b : Bool) :
    (List.replicate n broadcastWord).foldl (Tables.addWord env PARSE_NO_PAT) (t, i, b) =
      ({ t with hostList := t.hostList ++ List.replicate n .broadcast }, i + n, b) := by
  induction n generalizing t i with
  | zero => simp
  | succ n ih =>
    have hone : Tables.addWord env PARSE_NO_PAT (t, i, b) broadcastWord =
        ({ t with hostList := t.hostList ++ [.broadcast] }, i + 1, b) := rfl
    rw [List.replicate_succ, List.foldl_cons, hone, ih, List.replicate_succ, List.append_assoc,
      Nat.add_assoc, Nat.add_comm 1 n]
    rfl

theorem addHosts_crowd (env : Env) (t : Tables) (j k : Nat) :
    t.addHosts env PARSE_NO_PAT (crowd j k) =
      ({ t with hostList := t.hostList ++ crowdHosts j k, nChars := t.nChars + 2 },
        (crowdHosts j k).length, false) := by
  have hany (t : Tables) (i : Nat) : Tables.addWord env PARSE_NO_PAT (t, i, false) anyAlias =
      ({ t with hostList := t.hostList ++ [.alias starWord], nChars := t.nChars + 2 }, i + 1,
        false) := rfl
  unfold Tables.addHosts crowd
  rw [List.foldl_append, addWords_broadcast, List.foldl_cons, hany, addWords_broadcast]
  simp only [crowdHosts, List.append_assoc, List.length_append, List.length_replicate,
    List.length_cons, List.cons_append, List.nil_append]
  rw [Nat.zero_add, Nat.add_assoc, Nat.add_comm 1 k]

theorem flagOf_crowd {j k : Nat} {w : CStr} (hw : w ∈ crowd j k) : flagOf w = none := by
  rcases List.mem_append.mp hw with hw | hw
  · exact List.eq_of_mem_replicate hw ▸ rfl
  rcases List.mem_cons.mp hw with rfl | hw
  · rfl
  · exact List.eq_of_mem_replicate hw ▸ rfl

theorem readTables_crowded (j k : Nat) : readTables noNames (crowded j k) = crowdTables j k := by
  have hfilter : (crowd j k).filter (fun w => (flagOf w).isNone) = crowd j k :=
    List.filter_eq_self.mpr fun w hw => by rw [flagOf_crowd hw]; rfl
  have hflags : (crowd j k).foldl (fun flags w => flags ||| (flagOf w).getD 0) (0 : BitVec 32) = 0 :=
    List.foldlRecOn (crowd j k) _ (motive := fun flags => flags = 0) rfl fun flags hz w hw => by
      rw [hz, flagOf_crowd hw]
      rfl
  have hfirst : Tables.empty.addLine noNames (aliasWord, []) =
      ⟨[], [], [⟨CStr.next aliasWord, 0, 0, false⟩], [], 4, false⟩ := rfl
  have hsecond (t : Tables) : t.addLine noNames (starWord, crowd j k) =
      t.addAcl noNames starWord (crowd j k) := rfl
  unfold readTables
  rw [readLines_crowded, List.foldl_cons, List.foldl_cons, List.foldl_nil, hfirst, hsecond]
  unfold Tables.addAcl
  have hstar : displayFlags starWord = (0, starWord) := rfl
  rw [hstar]
  dsimp only
  have hadd (t : Tables) : t.addHost noNames PARSE_NO_BCAST starWord starWord.1.length =
      ({ t with hostList := t.hostList ++ [.pattern starWord], nChars := t.nChars + 2 }, true) := rfl
  rw [hadd, hfilter, hflags]
  dsimp only
  have hno : ¬(true = false ∧ (0 : BitVec 32) &&& a_notAllowed ≠ 0) := fun h => Bool.noConfusion h.1
  rw [if_neg hno, addHosts_crowd]
  rfl

theorem crowd_not_rejected (j k : Nat) : (crowdTables j k).rejected = false := by
  refine Bool.or_eq_false_iff.mpr ⟨rfl, List.any_eq_false.mpr ?_⟩
  intro acl hacl
  cases List.mem_singleton.mp hacl
  have hslice : (crowdTables j k).slice 1 (crowdHosts j k).length = crowdHosts j k := by
    show (crowdHosts j k).take (crowdHosts j k).length = _
    rw [List.take_length]
  have hhosts : checkHostlist (crowdTables j k) false MAX_DEPTH (crowdHosts j k) = false := by
    refine List.any_eq_false.mpr fun h hh => ?_
    rcases List.mem_append.mp hh with hh | hh
    · rw [List.eq_of_mem_replicate hh]
      simp
    rcases List.mem_cons.mp hh with rfl | hh
    · rw [Bool.not_eq_true]
      rfl
    · rw [List.eq_of_mem_replicate hh]
      simp
  rw [Bool.not_eq_true, hslice, hhosts, Bool.or_false]
  rfl

theorem readAccessFile_crowded (j k : Nat) :
    readAccessFile noNames (some (crowded j k)) = crowdTables j k := by
  unfold readAccessFile
  dsimp only
  rw [readTables_crowded, if_neg (by rw [crowd_not_rejected]; simp)]

/-- The hosts that the daemon takes for all of them. -/
def firstHosts (j : Nat) : List HostEntry :=
  .pattern starWord ::
    (List.replicate j .broadcast ++ .alias starWord :: List.replicate j .broadcast)

theorem firstHosts_append (j n : Nat) :
    (crowdTables j (j + n)).hostList = firstHosts j ++ List.replicate n .broadcast := by
  simp [crowdTables, crowdHosts, firstHosts]

theorem length_firstHosts (j : Nat) : (firstHosts j).length = 2 * j + 2 := by
  simp [firstHosts]
  omega

theorem firstHosts_room (j : Nat) : HostRoom 8 (firstHosts j) 0 := by
  refine ⟨Int.le_refl 0, ?_, fun h hh p hp => ?_⟩
  · simp [firstHosts, HostEntry.chars, starWord]
  · have hshort : (starWord.1.length + 1 : Nat) < 0x10000 := by decide
    rcases List.mem_cons.mp hh with rfl | hh
    · cases hp
      exact hshort
    rcases List.mem_append.mp hh with hh | hh
    · cases List.eq_of_mem_replicate hh
      cases hp
    rcases List.mem_cons.mp hh with rfl | hh
    · cases hp
      exact hshort
    · cases List.eq_of_mem_replicate hh
      cases hp

theorem drop_firstHosts (j : Nat) : ((firstHosts j).map HostEntry.entry).drop (j + 1) =
    .alias [42] :: List.replicate j .broadcast := by
  have hentry (n : Nat) : (List.replicate n HostEntry.broadcast).map HostEntry.entry =
      List.replicate n .broadcast := List.map_replicate
  rw [firstHosts, List.map_cons, List.drop_succ_cons, List.map_append, List.map_cons, hentry,
    List.drop_left' List.length_replicate]
  rfl

/-- What the daemon takes for its other tables. -/
def taken (X : Bytes) : Bytes := (List.replicate 12 (word HOST_BROADCAST)).flatten ++ X

/-- The name takes three bytes of a number, and the numbers behind it are shifted. -/
theorem taken_eq (X : Bytes) : taken X = ListenEntry.bytes ⟨some 3, 3, 3⟩ ++
    (bufBytes [3, 0, 0] ++ (word (int 768) ++ (word (int 768) ++
      (AclEntry.bytes ⟨768, 768, 768, 768, 768⟩ ++ 0 :: X)))) := rfl

theorem recvAlias_taken (X : Bytes) :
    recvAlias 8 4 (bufBytes [3, 0, 0] ++ (word (int 768) ++ (word (int 768) ++ X))) =
      some ((⟨⟨4, some [3, 0, 0]⟩, 768, 768⟩, 7), X) := by
  have hstr (X : Bytes) : recvStr 8 4 (bufBytes [3, 0, 0] ++ X) =
      some ((storedAt [3, 0, 0] 4, 4 + (([3, 0, 0] : Bytes).length : Int)), X) :=
    recvBuf_sent movesBy_toInt (by simp) (by decide) (by decide) (by decide) X
  unfold recvAlias
  rw [Reader.bind_some (hstr _), Reader.bind_some (recvShort_word _ _)]
  exact Reader.map_eq_some.mpr ⟨_, recvShort_word _ _, rfl⟩

theorem readAll_one {α : Type} {recv : Reader UInt8 α} {a : α} {s r : Bytes}
    (h : recv s = some (a, r)) : readAll (List.replicate 1 recv) s = some ([a], r) := by
  show (recv.bind fun a => (readAll []).map (a :: ·)) s = _
  rw [Reader.bind_some h]
  rfl

theorem recvTables_taken {j : Nat} {nHosts : BitVec 16} (hn : times nHosts = (firstHosts j).length)
    (X : Bytes) : ∃ data rest,
      recvTables nHosts 1 1 1 8 (((firstHosts j).map HostEntry.bytes).flatten ++ taken X) =
          some (data, rest) ∧
        data.acc.hostList = (firstHosts j).map HostEntry.entry ∧
        data.acc.aliasList = [⟨[3], 768, 768⟩] ∧
        data.acc.acList = [⟨768, 768, 768, 768, false, false⟩] := by
  have hhosts := Reader.iterate_sent (I := HostRoom 8) (fun _ _ _ h => ⟨recvHost_sent h, h.next⟩)
    (taken X) (firstHosts j) 0 (firstHosts_room j)
  have hnext : (threaded HostEntry.res HostEntry.next (firstHosts j) 0).2 = 4 := by
    rw [hosts_next]
    simp [firstHosts, HostEntry.chars, starWord]
  have htimes : times 1 = 1 := by decide
  refine ⟨⟨nHosts, 1, 1, 1, 8, (threaded HostEntry.res HostEntry.next (firstHosts j) 0).1,
    [⟨3, 3, 3⟩], [⟨⟨4, some [3, 0, 0]⟩, 768, 768⟩], [⟨768, 768, 768, 768, 768⟩], 7⟩, 0 :: X,
    ?_, entry_hosts (threaded_forall₂ res_holds _ _), rfl, rfl⟩
  unfold recvTables
  rw [hn, htimes]
  have h8 : (8 : BitVec 32).toInt = 8 := rfl
  have hlistens := readAll_one (recvListen_sent ⟨some 3, 3, 3⟩ (bufBytes [3, 0, 0] ++
    (word (int 768) ++ (word (int 768) ++ (AclEntry.bytes ⟨768, 768, 768, 768, 768⟩ ++ 0 :: X)))))
  have haliases : Reader.iterate (recvAlias 8) 1 4 (bufBytes [3, 0, 0] ++ (word (int 768) ++
      (word (int 768) ++ (AclEntry.bytes ⟨768, 768, 768, 768, 768⟩ ++ 0 :: X)))) =
      some (([_], _), _) :=
    Reader.bind_eq_some.mpr ⟨_, _, recvAlias_taken _, rfl⟩
  have hacls := readAll_one (recvAcl_sent ⟨768, 768, 768, 768, 768⟩ (0 :: X))
  rw [h8, Reader.bind_some hhosts, taken_eq, Reader.bind_some hlistens, hnext,
    Reader.bind_some haliases]
  exact Reader.map_eq_some.mpr ⟨_, hacls, rfl⟩

theorem crowd_short (j n : Nat) : ∀ h ∈ (crowdTables j (j + n)).hostList, h.Short := by
  rw [firstHosts_append]
  intro h hh
  rcases List.mem_append.mp hh with hh | hh
  · exact (firstHosts_room j).short h hh
  · rw [List.eq_of_mem_replicate hh]
    exact fun p hp => by cases hp

theorem crowd_names (j k : Nat) :
    ∀ a ∈ (crowdTables j k).aliasList, a.name.1.length + 1 < 0x10000 := by
  intro a ha
  cases List.mem_singleton.mp ha
  decide

theorem body_crowd (j m : Nat) : ∃ X, (crowdTables j (j + (12 + m))).body =
    ((firstHosts j).map HostEntry.bytes).flatten ++ taken X := by
  unfold Tables.body taken
  rw [firstHosts_append, List.map_append, List.flatten_append, List.map_replicate,
    ← List.replicate_append_replicate, List.flatten_append, List.append_assoc, List.append_assoc]
  exact ⟨_, rfl⟩

/-- With 65536 hosts more than there is room for, the daemon takes 1536 for all of them. -/
theorem received_crowd : ∃ j k bytes data rest,
    (readAccessFile noNames (some (crowded j k))).send = some bytes ∧
      scanAccessDatabase Ipc.Sample.ample bytes = some (data, rest) ∧
      data.acc.aliasList = [⟨[3], 768, 768⟩] ∧
      data.acc.acList = [⟨768, 768, 768, 768, false, false⟩] ∧
      data.acc.slice 768 768 = .alias [42] :: List.replicate j .broadcast := by
  obtain ⟨j, hj⟩ : ∃ j, j = 767 := ⟨_, rfl⟩
  obtain ⟨m, hm⟩ : ∃ m, m = 65524 := ⟨_, rfl⟩
  obtain ⟨X, hbody⟩ := body_crowd j m
  have hlength : (crowdTables j (j + (12 + m))).hostList.length = 67072 := by
    rw [firstHosts_append, List.length_append, length_firstHosts, List.length_replicate, hj, hm]
  have hn : times ((int (crowdTables j (j + (12 + m))).hostList.length).setWidth 16) =
      (firstHosts j).length := by
    rw [hlength, length_firstHosts, hj]
    rfl
  obtain ⟨data, rest, hread, hhosts, halias, hacl⟩ := recvTables_taken hn X
  have hsend := send_short (crowd_short j (12 + m)) (crowd_names j (j + (12 + m)))
  rw [← readAccessFile_crowded] at hsend
  refine ⟨j, j + (12 + m), _, data, rest, hsend, ?_, halias, hacl, ?_⟩
  · rw [readAccessFile_crowded, scan_counts, hbody]
    rw [hlength] at hread ⊢
    have hroom : Ipc.Sample.ample.malloc (blockSize ((int 67072).setWidth 16) 1 1 1 8) = true := by
      decide
    exact (if_pos hroom).trans hread
  · have h768 : 768 = j + 1 := by rw [hj]
    unfold Xdmcp.AccArr.slice
    rw [hhosts, h768, drop_firstHosts, List.take_of_length_le (by simp)]

theorem quoted_crowd (j k : Nat) : Quoted (crowdTables j k) := by
  rintro a - p hp hq
  have hstar : p = starWord := by
    rcases List.mem_cons.mp hp with hp | hp
    · cases hp
    rcases List.mem_append.mp hp with hp | hp
    · cases List.eq_of_mem_replicate hp
    rcases List.mem_cons.mp hp with hp | hp
    · cases hp
      rfl
    · cases List.eq_of_mem_replicate hp
  rw [hstar] at hq
  cases hq

end Sample

/-- A list that leads to itself at once is never read to its end. -/
theorem scanEntrylist_loops {acc : AccArr} {a : Xdmcp.AliasEntry} {p : Bytes}
    {rest : List Xdmcp.HostEntry} (ha : acc.aliasList = [a])
    (hm : Xdmcp.patternMatch a.name p = true) (hs : acc.slice a.hosts a.nhosts = .alias p :: rest)
    (names : Xdmcp.Resolver) (clientAddress : Bytes) (connectionType : UInt16) (depth : Nat) :
    Xdmcp.scanEntrylist acc names clientAddress connectionType depth (.alias p :: rest) = none := by
  induction depth with
  | zero => rfl
  | succ depth ih =>
    rw [Xdmcp.scanEntrylist]
    show Option.bind (acc.aliasList.anyM _) _ = none
    rw [ha]
    show Option.bind (Option.bind (if Xdmcp.patternMatch a.name p = true then _ else _) _) _ = none
    rw [if_pos hm, hs, ih]
    rfl

end Kdm.Xaccess
