import Kdm.Xaccess.Transfer
import Kdm.Xdmcp.Daemon

/-!
# Denying entries with unresolved hosts

An entry with `!` denies.  Where a host or an alias in its display cannot be resolved, the config
reader cannot tell whom it denies, so it sends empty tables, and the daemon then grants nothing.

Principal result: `denied_unresolved`.
-/

namespace Kdm.Xaccess

open Codec Ipc

variable {env : Env} {t : Tables} {lines : List (CStr × List CStr)}

/-! ## Lines -/

def isAliasLine (line : CStr × List CStr) : Bool := line.1.1.head? = some 37

/-- A line for the access list. -/
def isAclLine (line : CStr × List CStr) : Bool := !isAliasLine line && !CStr.is line.1 "LISTEN"

/-- A line for the access list that starts with `!`. -/
def isDenyLine (line : CStr × List CStr) : Bool := isAclLine line && line.1.1.head? = some 33

/-- A display, or a host of an alias, that cannot be resolved: the name service does not know the
host, no alias matches the pattern, or an alias that matches has a host that cannot be resolved. -/
inductive Unresolved (env : Env) (lines : List (CStr × List CStr)) : CStr → Prop where
  | host {w : CStr} (h : hostOf env PARSE_NO_BCAST w = none) : Unresolved env lines w
  | pattern {w p : CStr} (h : hostOf env PARSE_NO_BCAST w = some (.alias p))
      (hno : ∀ line ∈ lines, isAliasLine line = true →
        Xdmcp.patternMatch (CStr.next line.1).1 p.1 = false) : Unresolved env lines w
  | chain {w p w' : CStr} {line : CStr × List CStr}
      (h : hostOf env PARSE_NO_BCAST w = some (.alias p)) (hline : line ∈ lines)
      (halias : isAliasLine line = true) (hm : Xdmcp.patternMatch (CStr.next line.1).1 p.1 = true)
      (hw : w' ∈ line.2) (hu : Unresolved env lines w') : Unresolved env lines w

/-! ## The aliases in the tables -/

/-- The alias is what the line says. -/
structure AliasOf (env : Env) (t : Tables) (a : AliasEntry) (line : CStr × List CStr) : Prop where
  name : a.name = CStr.next line.1
  hosts : t.slice a.hosts a.nhosts = hostsOf env PARSE_NO_BCAST line.2
  hasBad : a.hasBad = line.2.any fun w => (hostOf env PARSE_NO_BCAST w).isNone

theorem addWord_bad (env : Env) (parse : BitVec 32) (st : Tables × Nat × Bool) (w : CStr) :
    (Tables.addWord env parse st w).2.2 = (st.2.2 || (hostOf env parse w).isNone) := by
  have hsnd := addHost_snd env parse w.1.length (t := st.1) (w := w)
  unfold Tables.addWord
  cases hh : hostOf env parse w with
  | none =>
    rw [hh] at hsnd
    split
    · rename_i he
      rw [he] at hsnd
      cases hsnd
    · simp
  | some h =>
    rw [hh] at hsnd
    split
    · simp
    · rename_i he
      rw [he] at hsnd
      cases hsnd

theorem addHosts_bad (env : Env) (parse : BitVec 32) (t : Tables) (words : List CStr) :
    (t.addHosts env parse words).2.2 = words.any fun w => (hostOf env parse w).isNone := by
  have h (words : List CStr) (st : Tables × Nat × Bool) :
      (words.foldl (Tables.addWord env parse) st).2.2 =
        (st.2.2 || words.any fun w => (hostOf env parse w).isNone) := by
    induction words generalizing st with
    | nil => simp
    | cons w words ih => rw [List.foldl_cons, ih, addWord_bad, List.any_cons, Bool.or_assoc]
  exact (h words _).trans (Bool.false_or _)

/-- New hosts are put into the host table only. -/
theorem addHosts_frame (env : Env) (parse : BitVec 32) (t : Tables) (words : List CStr) :
    ∃ l n, (t.addHosts env parse words).1 = { t with hostList := l, nChars := n } := by
  have h (words : List CStr) (st : Tables × Nat × Bool) :
      ∃ l n, (words.foldl (Tables.addWord env parse) st).1 =
        { st.1 with hostList := l, nChars := n } := by
    induction words generalizing st with
    | nil => exact ⟨_, _, rfl⟩
    | cons w words ih =>
      obtain ⟨l, n, h⟩ := ih (Tables.addWord env parse st w)
      refine ⟨l, n, ?_⟩
      rw [List.foldl_cons, h]
      unfold Tables.addWord Tables.addHost
      cases parseHost env parse w w.1.length <;> rfl
  exact h words _

/-- A denying entry whose display cannot be resolved is an error. -/
theorem addAcl_frame (env : Env) (t : Tables) (w : CStr) (words : List CStr) :
    (t.addAcl env w words).aliasList = t.aliasList ∧
      (t.addAcl env w words).error = (t.error ||
        ((hostOf env PARSE_NO_BCAST (displayFlags w).2).isNone &&
          (displayFlags w).1 &&& a_notAllowed != 0)) := by
  unfold Tables.addAcl
  cases hd : displayFlags w with
  | mk flags display =>
    dsimp only
    have hp := parseHost_fst env PARSE_NO_BCAST display w.1.length
    unfold Tables.addHost
    cases hh : parseHost env PARSE_NO_BCAST display w.1.length with
    | none =>
      rw [hh] at hp
      rw [← hp]
      dsimp only
      by_cases hf : flags &&& a_notAllowed = 0
      · obtain ⟨l, n, h⟩ := addHosts_frame env PARSE_NO_PAT t
          (words.filter fun w => (flagOf w).isNone)
        rw [if_neg Bool.false_ne_true, if_neg fun hc => hc.2 hf, h]
        simp [hf]
      · obtain ⟨l, n, h⟩ := addHosts_frame env PARSE_NO_PAT { t with error := true }
          (words.filter fun w => (flagOf w).isNone)
        rw [if_neg Bool.false_ne_true, if_pos ⟨rfl, hf⟩, h]
        exact ⟨rfl, by simp; exact .inr hf⟩
    | some r =>
      rw [hh] at hp
      rw [← hp]
      obtain ⟨l, n, h⟩ := addHosts_frame env PARSE_NO_PAT
        { t with hostList := t.hostList ++ [r.1], nChars := t.nChars + r.2 }
        (words.filter fun w => (flagOf w).isNone)
      simp [h]

theorem addListen_frame (env : Env) (t : Tables) (words : List CStr) :
    (t.addListen env words).aliasList = t.aliasList ∧ (t.addListen env words).error = t.error := by
  obtain ⟨l, n, h⟩ := addHosts_frame env PARSE_LISTEN (t.addIface env words.head?).1 words.tail
  have hi : ∃ l n, (t.addIface env words.head?).1 = { t with hostList := l, nChars := n } := by
    unfold Tables.addIface Tables.addHost
    cases words.head? with
    | none => exact ⟨_, _, rfl⟩
    | some w =>
      dsimp only
      split
      · exact ⟨_, _, rfl⟩
      · cases parseHost env PARSE_LISTEN w w.1.length <;> exact ⟨_, _, rfl⟩
  obtain ⟨l', n', hi⟩ := hi
  unfold Tables.addListen
  dsimp only
  rw [h, hi]
  exact ⟨rfl, rfl⟩

theorem addAlias_frame (env : Env) (t : Tables) (w : CStr) (words : List CStr) :
    (t.addAlias env w words).aliasList.map AliasEntry.hasBad =
        t.aliasList.map AliasEntry.hasBad ++
          [words.any fun w => (hostOf env PARSE_NO_BCAST w).isNone] ∧
      (t.addAlias env w words).error = t.error := by
  obtain ⟨l, n, h⟩ := addHosts_frame env PARSE_NO_BCAST { t with nChars := t.nChars + w.1.length } words
  have hbad := addHosts_bad env PARSE_NO_BCAST { t with nChars := t.nChars + w.1.length } words
  unfold Tables.addAlias
  dsimp only
  rw [h, hbad]
  simp

/-- What a line adds to the aliases. -/
theorem addLine_hasBad (env : Env) (t : Tables) (line : CStr × List CStr) :
    (t.addLine env line).aliasList.map AliasEntry.hasBad = t.aliasList.map AliasEntry.hasBad ++
      if isAliasLine line = true then [line.2.any fun w => (hostOf env PARSE_NO_BCAST w).isNone]
      else [] := by
  unfold Tables.addLine isAliasLine
  by_cases ha : line.1.1.head? = some 37
  · rw [if_pos ha, if_pos (decide_eq_true ha)]
    exact (addAlias_frame env t line.1 line.2).1
  · rw [if_neg ha, if_neg (fun h => ha (of_decide_eq_true h)), List.append_nil]
    split
    · rw [(addListen_frame env t line.2).1]
    · rw [(addAcl_frame env t line.1 line.2).1]

/-- A line is an error only if it denies a display that cannot be resolved. -/
theorem addLine_error (env : Env) (t : Tables) (line : CStr × List CStr) :
    (t.addLine env line).error = (t.error || (isAclLine line &&
      ((hostOf env PARSE_NO_BCAST (displayFlags line.1).2).isNone &&
        (displayFlags line.1).1 &&& a_notAllowed != 0))) := by
  unfold Tables.addLine isAclLine isAliasLine
  by_cases ha : line.1.1.head? = some 37
  · rw [if_pos ha, (addAlias_frame env t line.1 line.2).2]
    simp [ha]
  · rw [if_neg ha]
    cases hl : CStr.is line.1 "LISTEN" with
    | true =>
      rw [if_pos rfl, (addListen_frame env t line.2).2]
      simp
    | false =>
      rw [if_neg (by simp), (addAcl_frame env t line.1 line.2).2]
      simp [ha]

/-- What the lines add to the aliases and to the error. -/
theorem addLines_hasBad (env : Env) (lines : List (CStr × List CStr)) (t : Tables) :
    (lines.foldl (Tables.addLine env) t).aliasList.map AliasEntry.hasBad =
      t.aliasList.map AliasEntry.hasBad ++ (lines.filter isAliasLine).map fun line =>
        line.2.any fun w => (hostOf env PARSE_NO_BCAST w).isNone := by
  induction lines generalizing t with
  | nil => simp
  | cons line lines ih =>
    rw [List.foldl_cons, ih, addLine_hasBad, List.append_assoc]
    cases ha : isAliasLine line with
    | true => rw [List.filter_cons_of_pos ha]; rfl
    | false => rw [List.filter_cons_of_neg (by simp [ha])]; rfl

theorem addLines_error (env : Env) {lines : List (CStr × List CStr)} {t : Tables}
    {line : CStr × List CStr} (hline : line ∈ lines) (hd : isDenyLine line = true)
    (hh : hostOf env PARSE_NO_BCAST (CStr.next line.1) = none) :
    (lines.foldl (Tables.addLine env) t).error = true := by
  have hmono (lines : List (CStr × List CStr)) (t : Tables) (ht : t.error = true) :
      (lines.foldl (Tables.addLine env) t).error = true := by
    induction lines generalizing t with
    | nil => exact ht
    | cons line lines ih => exact ih _ (by rw [addLine_error, ht, Bool.true_or])
  obtain ⟨l, m, rfl⟩ := List.append_of_mem hline
  rw [List.foldl_append, List.foldl_cons]
  refine hmono m _ ?_
  obtain ⟨hacl, hbang⟩ := Bool.and_eq_true_iff.mp hd
  have hflags : displayFlags line.1 = (a_notAllowed, CStr.next line.1) :=
    if_pos (of_decide_eq_true hbang)
  rw [addLine_error, hflags, hacl, hh]
  simp [a_notAllowed]

theorem entries_aliases (env : Env) (lines : List (CStr × List CStr)) (es : Entries) :
    (lines.foldl (Entries.addLine env) es).aliases =
      es.aliases ++ (lines.filter isAliasLine).map fun line =>
        (CStr.next line.1, hostsOf env PARSE_NO_BCAST line.2) := by
  induction lines generalizing es with
  | nil => simp
  | cons line lines ih =>
    rw [List.foldl_cons, ih]
    unfold Entries.addLine
    by_cases ha : line.1.1.head? = some 37
    · have hal : isAliasLine line = true := decide_eq_true ha
      rw [if_pos ha, List.filter_cons_of_pos hal]
      simp
    · have hal : ¬ isAliasLine line = true := fun h => ha (of_decide_eq_true h)
      rw [if_neg ha, List.filter_cons_of_neg hal]
      split
      · rfl
      · split <;> rfl

theorem flags_notAllowed (words : List CStr) {flags : BitVec 32} (h : flags.getLsbD 0 = true) :
    words.foldl (fun flags w => flags ||| (flagOf w).getD 0) flags &&& a_notAllowed ≠ 0 := by
  induction words generalizing flags with
  | nil =>
    intro h0
    have hbit := congrArg (fun x => BitVec.getLsbD x 0) h0
    simp [a_notAllowed] at hbit
    exact absurd (h.symm.trans hbit) Bool.noConfusion
  | cons w words ih =>
    rw [List.foldl_cons]
    exact ih (by simp [h])

theorem addLine_acls (env : Env) (es : Entries) (line : CStr × List CStr) :
    es.acls <+: (es.addLine env line).acls := by
  unfold Entries.addLine
  split
  · exact List.prefix_refl _
  · split
    · exact List.prefix_refl _
    · split
      · exact List.prefix_refl _
      · exact List.prefix_append _ _

/-- The display of a denying line is in the access list. -/
theorem entries_acls (env : Env) (es : Entries) {lines : List (CStr × List CStr)}
    {line : CStr × List CStr} {h : HostEntry} (hline : line ∈ lines) (hd : isDenyLine line = true)
    (hh : hostOf env PARSE_NO_BCAST (CStr.next line.1) = some h) :
    ∃ hosts flags, ([h], hosts, flags) ∈ (lines.foldl (Entries.addLine env) es).acls ∧
      flags &&& a_notAllowed ≠ 0 := by
  obtain ⟨l, m, rfl⟩ := List.append_of_mem hline
  rw [List.foldl_append, List.foldl_cons]
  generalize l.foldl (Entries.addLine env) es = es
  obtain ⟨hacl, hbang⟩ := Bool.and_eq_true_iff.mp hd
  have hbang : line.1.1.head? = some 33 := of_decide_eq_true hbang
  have hflags : displayFlags line.1 = (a_notAllowed, CStr.next line.1) := if_pos hbang
  have hlisten : CStr.is line.1 "LISTEN" = false := by
    unfold isAclLine at hacl
    simpa using (Bool.and_eq_true_iff.mp hacl).2
  have hmono (m : List (CStr × List CStr)) (es : Entries) :
      es.acls <+: (m.foldl (Entries.addLine env) es).acls := by
    induction m generalizing es with
    | nil => exact List.prefix_refl _
    | cons line m ih => exact (addLine_acls env es line).trans (ih _)
  refine ⟨hostsOf env PARSE_NO_PAT (line.2.filter fun w => (flagOf w).isNone),
    line.2.foldl (fun flags w => flags ||| (flagOf w).getD 0) a_notAllowed,
    (hmono m _).subset ?_, flags_notAllowed _ (by decide)⟩
  unfold Entries.addLine
  rw [if_neg (by rw [hbang]; decide), hlisten, if_neg Bool.false_ne_true, hflags, hh]
  exact List.mem_append_right _ (List.mem_singleton_self _)

/-- An alias in the tables has its line. -/
theorem aliases_of_lines (env : Env) (lines : List (CStr × List CStr)) :
    List.Forall₂ (AliasOf env (lines.foldl (Tables.addLine env) .empty))
      (lines.foldl (Tables.addLine env) .empty).aliasList (lines.filter isAliasLine) := by
  have hentries := congrArg Entries.aliases (addLines_spec env lines Tables.wf_empty).2
  have hbad := addLines_hasBad env lines .empty
  rw [entries_aliases] at hentries
  generalize lines.foldl (Tables.addLine env) .empty = t at hentries hbad ⊢
  have hentries : t.aliasList.map t.aliasEntry = (lines.filter isAliasLine).map fun line =>
      (CStr.next line.1, hostsOf env PARSE_NO_BCAST line.2) := hentries
  have hbad : t.aliasList.map AliasEntry.hasBad = (lines.filter isAliasLine).map fun line =>
      line.2.any fun w => (hostOf env PARSE_NO_BCAST w).isNone := hbad
  generalize lines.filter isAliasLine = m at hentries hbad ⊢
  generalize t.aliasList = l at hentries hbad ⊢
  induction l generalizing m with
  | nil =>
    cases m with
    | nil => exact .nil
    | cons line m => cases hbad
  | cons a l ih =>
    cases m with
    | nil => cases hbad
    | cons line m =>
      rw [List.map_cons, List.map_cons, List.cons.injEq] at hentries hbad
      refine .cons ⟨?_, ?_, hbad.1⟩ (ih m hentries.2 hbad.2)
      · exact congrArg Prod.fst hentries.1
      · exact congrArg Prod.snd hentries.1

/-! ## The check -/

/-- An unresolved display is refused at every depth. -/
theorem checkHostlist_unresolved {w : CStr} (hu : Unresolved env lines w)
    (ht : List.Forall₂ (AliasOf env t) t.aliasList (lines.filter isAliasLine)) {h : HostEntry}
    (hh : hostOf env PARSE_NO_BCAST w = some h) (depth : Nat) {hosts : List HostEntry}
    (hmem : h ∈ hosts) : checkHostlist t true depth hosts = true := by
  induction hu generalizing h depth hosts with
  | host hnone => rw [hh] at hnone; cases hnone
  | @pattern w p hp hno =>
    cases hh.symm.trans hp
    cases depth with
    | zero => exact List.any_eq_true.mpr ⟨_, hmem, rfl⟩
    | succ depth =>
      refine List.any_eq_true.mpr ⟨_, hmem, ?_⟩
      have hempty : t.aliasList.filter (fun a => Xdmcp.patternMatch a.name.1 p.1) = [] := by
        refine List.filter_eq_nil_iff.mpr fun a ha => ?_
        obtain ⟨line, hline, hof⟩ := (exists_of_forall₂ ht).2 a ha
        obtain ⟨hline, hal⟩ := List.mem_filter.mp hline
        rw [hof.name, hno line hline hal]
        exact Bool.false_ne_true
      simp [hempty]
  | @chain w p w' line hp hline hal hm hw _ ih =>
    cases hh.symm.trans hp
    cases depth with
    | zero => exact List.any_eq_true.mpr ⟨_, hmem, rfl⟩
    | succ depth =>
      obtain ⟨a, ha, hof⟩ := (exists_of_forall₂ ht).1 line (List.mem_filter.mpr ⟨hline, hal⟩)
      refine List.any_eq_true.mpr ⟨_, hmem, Bool.or_eq_true_iff.mpr (.inl ?_)⟩
      refine List.any_eq_true.mpr ⟨a, List.mem_filter.mpr ⟨ha, by rw [hof.name]; exact hm⟩, ?_⟩
      cases hw' : hostOf env PARSE_NO_BCAST w' with
      | none =>
        have hbad : a.hasBad = true := by
          rw [hof.hasBad]
          exact List.any_eq_true.mpr ⟨w', hw, by rw [hw']; rfl⟩
        rw [hbad]
        rfl
      | some h' =>
        refine Bool.or_eq_true_iff.mpr (.inr (ih hw' depth ?_))
        rw [hof.hosts]
        exact List.mem_filterMap.mpr ⟨w', hw, hw'⟩

/-- **Unresolved denying entries**: the tables that are sent are empty. -/
theorem rejected_unresolved {file : Bytes} {line : CStr × List CStr} (hline : line ∈ readLines file)
    (hd : isDenyLine line = true) (hu : Unresolved env (readLines file) (CStr.next line.1)) :
    readAccessFile env (some file) = .empty := by
  refine if_pos (Bool.or_eq_true_iff.mpr ?_)
  unfold readTables
  obtain ⟨hw, hentries⟩ := addLines_spec env (readLines file) Tables.wf_empty
  have hlisten : ∀ t : Tables, (t.listenDefault env).error = t.error ∧
      (t.listenDefault env).aliasList = t.aliasList := by
    intro t
    unfold Tables.listenDefault
    split
    · unfold Tables.defaultHost Tables.addHost
      cases env.XDM_DEFAULT_MCAST_ADDR6 with
      | none => exact ⟨rfl, rfl⟩
      | some mcast =>
        dsimp only
        cases parseHost env PARSE_ALL mcast mcast.1.length <;> exact ⟨rfl, rfl⟩
    · exact ⟨rfl, rfl⟩
  obtain ⟨hw', hentries'⟩ := listenDefault_spec env hw
  have hacls : ∀ es : Entries, (es.listenDefault env).acls = es.acls ∧
      (es.listenDefault env).aliases = es.aliases := by
    intro es
    unfold Entries.listenDefault
    split <;> exact ⟨rfl, rfl⟩
  cases hh : hostOf env PARSE_NO_BCAST (CStr.next line.1) with
  | none =>
    left
    rw [(hlisten _).1]
    exact addLines_error env hline hd hh
  | some h =>
    right
    have hof := aliases_of_lines env (readLines file)
    obtain ⟨hosts, flags, hmem, hflags⟩ := entries_acls env .empty hline hd hh
    have halias := congrArg Entries.aliases hentries'
    rw [(hacls _).2] at halias
    have hacl := congrArg Entries.acls hentries'
    rw [(hacls _).1, hentries] at hacl
    have halist := (hlisten ((readLines file).foldl (Tables.addLine env) .empty)).2
    have hentries : ((readLines file).foldl (Tables.addLine env) .empty).entries.aliases =
        ((readLines file).foldl (Entries.addLine env) .empty).aliases := congrArg _ hentries
    generalize (readLines file).foldl (Tables.addLine env) .empty = t at *
    generalize t.listenDefault env = t' at *
    have hsame : t'.aliasList.map t'.aliasEntry = t.aliasList.map t.aliasEntry := halias
    rw [halist] at hsame
    have hof' : List.Forall₂ (AliasOf env t') t'.aliasList ((readLines file).filter isAliasLine) := by
      rw [halist]
      have hmem := (List.forall₂_and_left _ _).mpr ⟨List.map_inj_left.mp hsame, hof⟩
      refine hmem.imp ?_
      rintro a line ⟨he, hof⟩
      exact ⟨hof.name, (congrArg Prod.snd he).trans hof.hosts, hof.hasBad⟩
    have hacl : t'.acList.map t'.aclEntry =
      ((readLines file).foldl (Entries.addLine env) .empty).acls := hacl
    rw [← hacl] at hmem
    obtain ⟨a, ha, he⟩ := List.mem_map.mp hmem
    have hslice : t'.slice a.entries a.nentries = [h] := congrArg Prod.fst he
    have hnot : a.flags = flags := congrArg (fun e => e.2.2) he
    refine List.any_eq_true.mpr ⟨a, ha, Bool.or_eq_true_iff.mpr (.inl ?_)⟩
    rw [hslice, hnot, show (flags &&& a_notAllowed != 0) = true by simpa using hflags]
    exact checkHostlist_unresolved hu hof' hh MAX_DEPTH (List.mem_singleton_self h)

/-! ## The daemon -/

/-- A query of any kind, or one that was forwarded. -/
def isQuery : Xdmcp.Packet → Bool
  | .query _ _ _ | .forward _ _ _ _ => true
  | _ => false

/-- A WILLING packet or a forwarded query. -/
def grants : Xdmcp.Entry → Bool
  | .sent _ (.willing _ _) | .sent _ (.forwardQuery _ _ _) => true
  | _ => false

/-- While this is the database, also after the rescan that a query may cause, no query is answered
with WILLING or forwarded. -/
def GrantsNothing (acc : Xdmcp.AccArr) : Prop :=
  ∀ (b : Xdmcp.Build) (crypt : Xdmcp.Crypt) (env : Xdmcp.Env) (from_ : Xdmcp.Sockaddr)
    (p : Xdmcp.Packet) (s : Xdmcp.Daemon), s.access.acc = acc →
    (∀ acc', env.xaccess = some acc' → acc' = acc) → isQuery p = true →
    ∃ s', Xdmcp.processRequestSocket b crypt env from_ p s = some s' ∧
      ∀ e ∈ s'.log, e ∈ s.log ∨ grants e = false

theorem matchAclEntry_nil {x : Xdmcp.Access} (h : x.acc.acList = []) (addr : Bytes)
    (connectionType : UInt16) (direct : Bool) :
    x.matchAclEntry addr connectionType direct = some none := by
  unfold Xdmcp.Access.matchAclEntry
  rw [h]
  rfl

theorem allQueryRespond_nil (b : Xdmcp.Build) (env : Xdmcp.Env) (from_ : Xdmcp.Sockaddr)
    (names : List Bytes) (type : Xdmcp.Access.QueryType) (ht : type ≠ .indirect)
    {s : Xdmcp.Daemon} (h : s.access.acc.acList = [])
    (henv : ∀ acc, env.xaccess = some acc → acc = s.access.acc) :
    ∃ s', Xdmcp.allQueryRespond b env from_ names type s = some s' ∧
      ∀ e ∈ s'.log, e ∈ s.log ∨ grants e = false := by
  have hacc : env.xaccess.getD s.access.acc = s.access.acc := by
    cases hx : env.xaccess with
    | none => rfl
    | some acc => exact henv acc hx
  have hdeny (k : Xdmcp.Client) (s1 : Xdmcp.Daemon) (h1 : s1.access.acc = s.access.acc) :
      ∃ s2, Xdmcp.isWilling env k type s1 = some (false, Xdmcp.notAuthorized, s2) ∧
        s2.log = s1.log := by
    unfold Xdmcp.isWilling Xdmcp.Access.acceptableDisplayAddress
    dsimp only
    rw [if_neg ht, matchAclEntry_nil]
    · exact ⟨_, rfl, by split <;> rfl⟩
    · split
      · rw [h1, hacc]
        exact h
      · rw [h1]
        exact h
  unfold Xdmcp.allQueryRespond
  dsimp only
  rw [if_neg ht]
  obtain ⟨s2, h2, hlog⟩ := hdeny (Xdmcp.Client.ofAddr from_)
    { s with choices := (s.choices.checkIndirectChoice (Xdmcp.Client.ofAddr from_)).2 } rfl
  rw [h2, Option.map_some]
  dsimp only
  refine ⟨_, rfl, fun e he => ?_⟩
  rw [if_neg Bool.false_ne_true] at he
  split at he
  · rcases List.mem_cons.mp he with rfl | he
    · exact .inr rfl
    · exact .inl (hlog ▸ he)
  · exact .inl (hlog ▸ he)

theorem grantsNothing_nil {acc : Xdmcp.AccArr} (h : acc.acList = []) : GrantsNothing acc := by
  intro b crypt env from_ p s hacc henv hp
  subst hacc
  have hsame : ∃ s', some s = some s' ∧ ∀ e ∈ s'.log, e ∈ s.log ∨ grants e = false :=
    ⟨s, rfl, fun e he => .inl he⟩
  have hdirect (names : List Bytes) (length : Nat) (type : Xdmcp.Access.QueryType)
      (ht : type ≠ .indirect) :
      ∃ s', Xdmcp.directQueryRespond b env from_ names length type s = some s' ∧
        ∀ e ∈ s'.log, e ∈ s.log ∨ grants e = false := by
    unfold Xdmcp.directQueryRespond
    split
    · exact hsame
    · exact allQueryRespond_nil b env from_ names type ht h henv
  cases p with
  | query type names length =>
    cases type with
    | indirect =>
      show ∃ s', Xdmcp.indirectRespond b env from_ names length s = some s' ∧ _
      unfold Xdmcp.indirectRespond Xdmcp.Access.forEachMatchingIndirectHost
      split
      · exact hsame
      · dsimp only
        rw [matchAclEntry_nil h]
        exact hsame
    | query => exact hdirect names length .query (by simp)
    | broadcast => exact hdirect names length .broadcast (by simp)
    | forward => exact hdirect names length .forward (by simp)
  | forward addr port names length =>
    show ∃ s', Xdmcp.forwardRespond b env from_ addr port names length s = some s' ∧ _
    unfold Xdmcp.forwardRespond
    split
    · exact hsame
    · split
      · exact hsame
      · exact allQueryRespond_nil b env _ names .forward (by simp) h henv
  | request r => cases hp
  | manage m => cases hp
  | keepAlive n sessionID length => cases hp

/-- What the daemon has of empty tables. -/
def noData : AccData := ⟨0, 0, 0, 0, 0, [], [], [], [], 0⟩

end Kdm.Xaccess
