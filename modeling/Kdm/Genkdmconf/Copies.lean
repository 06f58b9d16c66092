import Kdm.Genkdmconf.CopyFile
import Kdm.Lib.Decimal
import Mathlib.Data.List.Nodup

/-!
# What the copies have

Every call of `copyFile` either changes no file, or adds one copy; a run is taken copy by copy.

Principal result: `migration_preserves`.
-/

namespace Kdm.Genkdmconf

variable {env : Env} {c : Call} {s s' : Store} {reply : Reply} {files files' : Files} {fn nname : Path}
  {file : Inode} {l : Loc} {sp : List Path}

/-! ## The lists -/

theorem inList_iff : inList sp fn = true ↔ fn ∈ sp := List.contains_iff_mem

theorem mem_addStr {x y : Path} : y ∈ addStr sp x ↔ y ∈ sp ∨ y = x := by
  unfold addStr
  split
  · rename_i hx
    exact ⟨Or.inl, fun h => h.elim id fun he => he ▸ inList_iff.mp hx⟩
  · simp

theorem addStr_of_not_mem (h : fn ∉ sp) : addStr sp fn = sp ++ [fn] :=
  if_neg fun hin => h (inList_iff.mp hin)

theorem getMapping_addMapping_self {sm : List (Path × Path)} {k : Path} (v : Path)
    (h : getMapping sm k = none) : getMapping (addMapping sm k v) k = some v := by
  unfold addMapping
  rw [h]
  unfold getMapping at h ⊢
  rw [if_neg (by simp), List.lookup_append, h]
  simp

theorem getMapping_addMapping {sm : List (Path × Path)} {k k' n : Path} (v : Path)
    (h : getMapping sm k' = some n) : getMapping (addMapping sm k v) k' = some n := by
  unfold addMapping
  split
  · exact h
  · unfold getMapping at h ⊢
    rw [List.lookup_append, h]
    rfl

/-! ## The name of a copy -/

theorem numbered_inj (tp : Path) (i j : Nat) (h : numbered env tp i = numbered env tp j) : i = j :=
  Decimal.toDigits_inj (List.cons.inj (List.append_cancel_left h)).2

/-- There is always a name. -/
theorem newName_isSome (env : Env) (aflist : List Path) (tp : Path) :
    (newName env aflist tp).isSome := by
  unfold newName
  split
  · exact Fresh.seek_isSome (numbered_inj tp) aflist 2
  · rfl

theorem newName_not_mem {aflist : List Path} {tp : Path} (h : newName env aflist tp = some nname) :
    nname ∉ aflist := by
  unfold newName at h
  split at h
  · exact Fresh.seek_not_mem h
  · rename_i hnot
    cases h
    exact fun hm => hnot (inList_iff.mpr hm)

/-! ## The files -/

theorem displace_of_none (h : files (env.resolve fn) = none) : displace env fn files = files := if_pos h

theorem displace_frame (h : l ∉ moved env fn) : displace env fn files l = files l := by
  unfold moved at h
  obtain ⟨hold, hnew⟩ := not_or.mp (List.mem_cons.not.mp h)
  unfold displace
  split
  · rfl
  · split
    · exact if_neg hold
    · rename_i hb
      rw [if_neg hb, List.mem_singleton] at hnew
      unfold Files.rename
      rw [if_neg hnew, if_neg hold]

/-- The target is written, and what was there before is moved away. -/
theorem writeCopy_spec {mode stamp : Nat} {buf : Bytes}
    (h : writeCopy env nname mode stamp buf files = some files') :
    (files' (env.resolve nname)).map Inode.data = some buf ∧
      ∀ l, l ≠ env.resolve nname → (files (env.resolve nname) ≠ none → l ∉ moved env nname) →
        files' l = files l := by
  unfold writeCopy at h
  split at h
  · cases h
    refine ⟨?_, fun l hl hm => ?_⟩
    · unfold Files.create
      rw [if_pos rfl]
      rfl
    · unfold Files.create
      rw [if_neg hl]
      by_cases hn : files (env.resolve nname) = none
      · rw [displace_of_none hn]
      · exact displace_frame (hm hn)
  · cases h

/-! ## One call -/

/-- What is filled is the target, as the call wants it; the source becomes one of those copied. -/
structure Filled (env : Env) (c : Call) (nname : Path) (file : Inode) (s s' : Store) : Prop where
  cfmap : s'.cfmap = s.cfmap
  aflist : s'.aflist = s.aflist
  copied : ∀ v, v ∈ s'.copied ↔ v ∈ s.copied ∨ v = c.value
  kept : linked c nname file → s'.files = s.files
  written : ¬ linked c nname file →
    (s'.files (env.resolve nname)).map Inode.data = some (c.edited file.data) ∧
      ∀ l, l ≠ env.resolve nname → (s.files (env.resolve nname) ≠ none → l ∉ moved env nname) →
        s'.files l = s.files l

theorem fill_spec (h : fill env c nname file s = some s') : Filled env c nname file s s' := by
  unfold fill at h
  cases hp : c.proc file.data with
  | some data =>
    rw [hp] at h
    obtain ⟨files, hw, rfl⟩ := Option.map_eq_some_iff.mp h
    refine ⟨rfl, rfl, fun v => ?_, fun hl => ?_, fun _ => ?_⟩
    · simp only [Store.copied, List.mem_append, mem_addStr]
      tauto
    · rw [hl.1] at hp
      cases hp
    · have : c.edited file.data = data := by
        unfold Call.edited
        rw [hp]
        rfl
      rw [this]
      exact writeCopy_spec hw
  | none =>
    rw [hp] at h
    have he : c.edited file.data = file.data := by
      unfold Call.edited
      rw [hp]
      rfl
    dsimp only at h
    split at h
    · rename_i hn
      cases h
      refine ⟨rfl, rfl, fun v => ?_, fun _ => rfl, fun hl => absurd ⟨hp, hn⟩ hl⟩
      simp only [Store.copied, List.mem_append, mem_addStr, hn]
      tauto
    · rename_i hn
      obtain ⟨files, hw, rfl⟩ := Option.map_eq_some_iff.mp h
      refine ⟨rfl, rfl, fun v => ?_, fun hl => absurd hl.2 hn, fun _ => ?_⟩
      · simp only [Store.copied, List.mem_append, mem_addStr]
        tauto
      · rw [he]
        exact writeCopy_spec hw

/-- A call that copies a file. -/
structure Copies (env : Env) (c : Call) (nname : Path) (file : Inode) (s s' : Store) : Prop where
  value : c.value ≠ []
  unmapped : getMapping s.cfmap c.value = none
  name : (tptr env c.value).bind (newName env s.aflist) = some nname
  read : readFile env s.files c.value = some file
  filled : ∃ s₁, Filled env c nname file { s with cfmap := addMapping s.cfmap c.value nname } s₁ ∧
    s' = finish env c nname s₁

/-- What a call can do; when no file is copied, nothing changes but the map. -/
theorem copyFile_cases (h : copyFile env c s = some (s', reply)) :
    (s' = s ∧ touched env c s = [] ∧ (readOf env c s = none) ∧
      (c.value = [] ∨ reply.rt = false ∨
        ∃ nname, c.value ≠ [] ∧ getMapping s.cfmap c.value = some nname ∧ nname ∈ s.aflist ∧
          reply.value = nname)) ∨
    (∃ nname, c.value ≠ [] ∧ s' = { s with cfmap := addMapping s.cfmap c.value nname } ∧
      touched env c s = [] ∧ readOf env c s = some none ∧ readFile env s.files c.value = none ∧
      getMapping s.cfmap c.value = none ∧ (tptr env c.value).bind (newName env s.aflist) = some nname ∧
      reply.rt = false) ∨
    ∃ nname file, Copies env c nname file s s' ∧ readOf env c s = some (some file) ∧
      reply = ⟨true, nname⟩ := by
  unfold copyFile at h
  by_cases h0 : c.value = []
  · rw [if_pos h0] at h
    cases h
    exact Or.inl ⟨rfl, if_pos (Or.inl h0), if_pos (Or.inl h0), Or.inl h0⟩
  rw [if_neg h0] at h
  cases hm : getMapping s.cfmap c.value with
  | some nname =>
    rw [hm] at h
    cases h
    have hsome : (getMapping s.cfmap c.value).isSome := by rw [hm]; rfl
    refine Or.inl ⟨rfl, if_pos (Or.inr hsome), if_pos (Or.inr (Or.inl hsome)), Or.inr ?_⟩
    by_cases hin : nname ∈ s.aflist
    · exact Or.inr ⟨nname, h0, rfl, hin, rfl⟩
    · exact Or.inl (Bool.eq_false_iff.mpr fun h' => hin (inList_iff.mp h'))
  | none =>
    rw [hm] at h
    dsimp only at h
    cases ht : tptr env c.value with
    | none =>
      rw [ht] at h
      cases h
      refine Or.inl ⟨rfl, ?_, if_pos (Or.inr (Or.inr ht)), Or.inr (Or.inl rfl)⟩
      unfold touched
      rw [hm, ht, if_neg (by simp [h0])]
      rfl
    | some tp =>
      rw [ht] at h
      dsimp only at h
      have hread : readOf env c s = some (readFile env s.files c.value) :=
        if_neg (by simp [h0, hm, ht])
      cases hn : newName env s.aflist tp with
      | none =>
        rw [hn] at h
        cases h
      | some nname =>
        rw [hn] at h
        dsimp only at h
        have hname : (tptr env c.value).bind (newName env s.aflist) = some nname := by
          rw [ht]
          exact hn
        cases hf : readFile env s.files c.value with
        | none =>
          rw [hf] at h hread
          cases h
          refine Or.inr (Or.inl ⟨nname, h0, rfl, ?_, hread, rfl, rfl, hn, rfl⟩)
          unfold touched
          rw [if_neg (by simp [h0, hm]), hname, hf]
        | some file =>
          rw [hf] at h hread
          dsimp only at h
          obtain ⟨s₁, hfill, he⟩ := Option.map_eq_some_iff.mp h
          cases he
          exact Or.inr (Or.inr ⟨nname, file, ⟨h0, hm, hname, hf, s₁, fill_spec hfill, rfl⟩, hread, rfl⟩)

theorem Copies.touched (h : Copies env c nname file s s') : touched env c s =
    if linked c nname file then [] else env.resolve nname :: movedBy env c nname s := by
  unfold Genkdmconf.touched
  have hm : ¬ (c.value = [] ∨ (getMapping s.cfmap c.value).isSome) := by
    rw [h.unmapped]
    simp [h.value]
  rw [if_neg hm, h.name, h.read]

/-- **One copy**: the target has what the call wants, and a location that is not among those touched
keeps its file. -/
theorem Copies.spec (h : Copies env c nname file s s')
    (hown : c.value ≠ nname ∧ inNewDir env c.value → env.resolve nname ∉ moved env c.value) :
    (∀ l ∉ Genkdmconf.touched env c s, s'.files l = s.files l) ∧
      (linked c nname file ∨
        (s'.files (env.resolve nname)).map Inode.data = some (c.edited file.data)) := by
  obtain ⟨s₁, hf, rfl⟩ := h.filled
  rw [h.touched]
  by_cases hl : linked c nname file
  · refine ⟨fun l _ => ?_, Or.inl hl⟩
    have hsame : ¬ (c.value ≠ nname ∧ inNewDir env c.value) := fun hne => hne.1 hl.2
    show (if c.value ≠ nname ∧ inNewDir env c.value then _ else s₁.files) l = _
    rw [if_neg hsame, hf.kept hl]
  · obtain ⟨hdata, hframe⟩ := hf.written hl
    rw [if_neg hl]
    unfold movedBy finish
    dsimp only
    refine ⟨fun l hm => ?_, Or.inr ?_⟩
    · obtain ⟨ht, hm⟩ := not_or.mp (List.mem_cons.not.mp hm)
      obtain ⟨hm, hv⟩ := not_or.mp (List.mem_append.not.mp hm)
      have hold := hframe l ht fun hn => by rwa [if_neg hn] at hm
      split
      · rename_i hc
        rw [if_pos hc] at hv
        rw [displace_frame hv, hold]
      · exact hold
    · split
      · rename_i hc
        rw [displace_frame (hown hc), hdata]
      · exact hdata

/-! ## A run -/

/-- What holds after every call: `copies` are the calls that have copied a file, with the targets, and
`ts` are the locations that were touched. -/
structure Inv (env : Env) (before : Files) (log : List Done) (ts : List Loc)
    (copies : List (Call × Path)) (s : Store) : Prop where
  untouched : ∀ l ∉ ts, s.files l = before l
  aflist : s.aflist = copies.map Prod.snd
  targets : (copies.map Prod.snd).Nodup
  sources : (copies.map fun k => k.1.value).Nodup
  mapped : ∀ k ∈ copies, getMapping s.cfmap k.1.value = some k.2
  copied : ∀ v, v ∈ s.copied ↔ ∃ k ∈ copies, k.1.value = v
  contents : ∀ k ∈ copies, ∃ file, before (env.resolve k.1.value) = some file ∧
    (s.files (env.resolve k.2)).map Inode.data = some (k.1.edited file.data)
  done : ∀ d ∈ log, d.ok → ∃ k ∈ copies, k.1.value = d.call.value ∧ k.2 = d.reply.value
  logged : ∀ k ∈ copies, ∃ d ∈ log, d.ok ∧ d.call = k.1
  reads : ∀ d ∈ log, ∀ file, d.read = some file → file = readFile env before d.call.value

variable {before : Files} {log : List Done} {ts : List Loc} {copies : List (Call × Path)} {d : Done}

theorem inv_start (env : Env) (before : Files) : Inv env before [] [] [] (Store.start before) :=
  ⟨fun _ _ => rfl, rfl, List.nodup_nil, List.nodup_nil, nofun, fun _ => by simp [Store.copied, Store.start],
    nofun, nofun, nofun, nofun⟩

/-- A call that copies no file. -/
theorem Inv.skip (h : Inv env before log ts copies s)
    (hok : d.ok → ∃ k ∈ copies, k.1.value = d.call.value ∧ k.2 = d.reply.value)
    (hread : ∀ file, d.read = some file → file = readFile env before d.call.value) :
    Inv env before (log ++ [d]) ts copies s := by
  refine { h with done := fun e he hk => ?_, logged := fun k hk => ?_, reads := fun e he => ?_ }
  · obtain he | he := List.mem_append.mp he
    · exact h.done e he hk
    · obtain rfl := List.mem_singleton.mp he
      exact hok hk
  · obtain ⟨e, he, hrest⟩ := h.logged k hk
    exact ⟨e, List.mem_append_left _ he, hrest⟩
  · obtain he | he := List.mem_append.mp he
    · exact h.reads e he
    · obtain rfl := List.mem_singleton.mp he
      exact hread

/-- A file is read before anything was done to it. -/
theorem Inv.readFile (h : Inv env before log ts copies s) (hv : env.resolve fn ∉ ts) :
    readFile env s.files fn = readFile env before fn := by
  unfold Genkdmconf.readFile
  rw [h.untouched _ hv]

theorem resolve_of_readFile (h : readFile env files fn = some file) :
    files (env.resolve fn) = some file := by
  unfold readFile at h
  split at h
  · cases h
  · exact h

/-- The copy of a file. -/
theorem Inv.copy (h : Inv env before log ts copies s) (hcopy : Copies env c nname file s s')
    (hc : Careful1 env c s ts) :
    Inv env before (log ++ [⟨c, some (some file), ⟨true, nname⟩⟩]) (ts ++ touched env c s)
      (copies ++ [(c, nname)]) s' := by
  obtain ⟨hv, htargets, hown⟩ := (hc hcopy.value).2 hcopy.unmapped nname hcopy.name
  obtain ⟨hframe, hdata⟩ := hcopy.spec hown
  have hread := h.readFile hv
  have hfile : before (env.resolve c.value) = some file :=
    resolve_of_readFile (hread.symm.trans hcopy.read)
  have hnew : nname ∉ s.aflist := by
    obtain ⟨tp, -, hn⟩ := Option.bind_eq_some_iff.mp hcopy.name
    exact newName_not_mem hn
  have hvalue : c.value ∉ copies.map fun k => k.1.value := by
    intro hm
    obtain ⟨k, hk, he⟩ := List.mem_map.mp hm
    have := h.mapped k hk
    rw [he, hcopy.unmapped] at this
    cases this
  have hlog : (Done.mk c (some (some file)) ⟨true, nname⟩).ok := ⟨hcopy.value, rfl⟩
  obtain ⟨s₁, hfill, hs'⟩ := hcopy.filled
  have haflist : s'.aflist = s.aflist ++ [nname] := by
    rw [hs']
    show addStr s₁.aflist nname = _
    rw [hfill.aflist]
    exact addStr_of_not_mem hnew
  have hcfmap : s'.cfmap = addMapping s.cfmap c.value nname := by
    rw [hs']
    exact hfill.cfmap
  refine ⟨fun l hl => ?_, ?_, ?_, ?_, fun k hk => ?_, fun v => ?_, fun k hk => ?_, fun d hd hk => ?_,
    fun k hk => ?_, fun d hd => ?_⟩
  · obtain ⟨hts, ht⟩ := not_or.mp (List.mem_append.not.mp hl)
    rw [hframe l ht, h.untouched l hts]
  · rw [haflist, h.aflist, List.map_append]
    rfl
  · rw [List.map_append, ← h.aflist]
    exact List.nodup_append_comm.mp (List.nodup_cons.mpr ⟨hnew, h.aflist ▸ h.targets⟩)
  · rw [List.map_append]
    exact List.nodup_append_comm.mp (List.nodup_cons.mpr ⟨hvalue, h.sources⟩)
  · rw [hcfmap]
    obtain hk | hk := List.mem_append.mp hk
    · exact getMapping_addMapping nname (h.mapped k hk)
    · obtain rfl := List.mem_singleton.mp hk
      exact getMapping_addMapping_self nname hcopy.unmapped
  · rw [hs']
    show v ∈ s₁.copied ↔ _
    rw [hfill.copied]
    constructor
    · rintro (hold | rfl)
      · obtain ⟨k, hk, he⟩ := (h.copied v).mp hold
        exact ⟨k, List.mem_append_left _ hk, he⟩
      · exact ⟨(c, nname), List.mem_append_right _ (List.mem_singleton_self _), rfl⟩
    · rintro ⟨k, hk, rfl⟩
      obtain hk | hk := List.mem_append.mp hk
      · exact Or.inl ((h.copied _).mpr ⟨k, hk, rfl⟩)
      · obtain rfl := List.mem_singleton.mp hk
        exact Or.inr rfl
  · obtain hk | hk := List.mem_append.mp hk
    · obtain ⟨x, hx, hdata⟩ := h.contents k hk
      refine ⟨x, hx, ?_⟩
      rw [hframe _ (htargets k.2 (h.aflist ▸ List.mem_map_of_mem hk)), hdata]
    · obtain rfl := List.mem_singleton.mp hk
      refine ⟨file, hfile, ?_⟩
      obtain hl | hdata := hdata
      · have htouched := hcopy.touched
        rw [if_pos hl] at htouched
        dsimp only
        rw [← hl.2, hframe _ (by rw [htouched]; exact List.not_mem_nil), h.untouched _ hv, hfile]
        unfold Call.edited
        rw [hl.1]
        rfl
      · exact hdata
  · obtain hd | hd := List.mem_append.mp hd
    · obtain ⟨k, hm, hrest⟩ := h.done d hd hk
      exact ⟨k, List.mem_append_left _ hm, hrest⟩
    · obtain rfl := List.mem_singleton.mp hd
      exact ⟨(c, nname), List.mem_append_right _ (List.mem_singleton_self _), rfl, rfl⟩
  · obtain hk | hk := List.mem_append.mp hk
    · obtain ⟨d, hd, hrest⟩ := h.logged k hk
      exact ⟨d, List.mem_append_left _ hd, hrest⟩
    · obtain rfl := List.mem_singleton.mp hk
      exact ⟨_, List.mem_append_right _ (List.mem_singleton_self _), hlog, rfl⟩
  · obtain hd | hd := List.mem_append.mp hd
    · exact h.reads d hd
    · obtain rfl := List.mem_singleton.mp hd
      intro x hx
      cases hx
      exact hcopy.read.symm.trans hread

/-- A call for a file that cannot be read; its name is kept. -/
theorem Inv.map (h : Inv env before log ts copies s) (nname : Path) :
    Inv env before log ts copies { s with cfmap := addMapping s.cfmap c.value nname } :=
  { h with mapped := fun k hk => getMapping_addMapping nname (h.mapped k hk) }

/-- Every careful call keeps the invariant. -/
theorem Inv.step (h : Inv env before log ts copies s) (hc : Careful1 env c s ts)
    (hcopy : copyFile env c s = some (s', reply)) :
    ∃ copies', Inv env before (log ++ [⟨c, readOf env c s, reply⟩]) (ts ++ touched env c s) copies' s' := by
  obtain ⟨rfl, ht, hr, hreply⟩ | ⟨nname, h0, rfl, ht, hr, hf, hm, hname, hrt⟩ |
    ⟨nname, file, hcopies, hr, rfl⟩ := copyFile_cases hcopy
  · rw [ht, hr, List.append_nil]
    refine ⟨copies, h.skip (fun hok => ?_) nofun⟩
    obtain h0 | hrt | ⟨nname, h0, hm, hin, hv⟩ := hreply
    · exact absurd h0 hok.1
    · exact absurd (hok.2.symm.trans hrt) nofun
    · obtain ⟨k, hk, he⟩ := (h.copied _).mp (inList_iff.mp ((hc h0).1 nname hm (inList_iff.mpr hin)))
      have hmk := h.mapped k hk
      rw [he, hm] at hmk
      exact ⟨k, hk, he, ((Option.some.inj hmk).symm.trans hv.symm)⟩
  · obtain ⟨hv, -⟩ := (hc h0).2 hm nname hname
    rw [ht, hr, List.append_nil]
    refine ⟨copies, (h.map nname).skip (fun hok => absurd (hok.2.symm.trans hrt) nofun) ?_⟩
    intro x hx
    cases hx
    exact hf.symm.trans (h.readFile hv)
  · rw [hr]
    exact ⟨_, h.copy hcopies hc⟩

theorem Inv.run {cs : List Call} {log' : List Done} (h : Inv env before log ts copies s)
    (hc : Careful env cs s ts) (hrun : run env cs s = some (s', log')) :
    ∃ ts' copies', Inv env before (log ++ log') ts' copies' s' := by
  induction cs generalizing s log log' ts copies with
  | nil =>
    cases hrun
    rw [List.append_nil]
    exact ⟨ts, copies, h⟩
  | cons c cs ih =>
    obtain ⟨hc1, hcs⟩ := hc
    unfold Genkdmconf.run at hrun
    cases hcopy : copyFile env c s with
    | none =>
      rw [hcopy] at hrun
      cases hrun
    | some r =>
      obtain ⟨s₁, reply⟩ := r
      rw [hcopy] at hrun
      obtain ⟨⟨s₂, log₂⟩, hrest, he⟩ := Option.map_eq_some_iff.mp hrun
      cases he
      obtain ⟨copies', h'⟩ := h.step hc1 hcopy
      obtain ⟨ts', copies'', h''⟩ := ih h' (hcs _ hcopy) hrest
      rw [List.append_assoc] at h''
      exact ⟨ts', copies'', h''⟩

/-- The invariant gives the property. -/
theorem Inv.preserved (h : Inv env before log ts copies s) : Preserved env before log s.files := by
  refine ⟨fun d hd e he hdok heok => ?_, fun d hd hok => ?_, h.reads⟩
  · obtain ⟨k, hk, hkv, hkt⟩ := h.done d hd hdok
    obtain ⟨k', hk', hkv', hkt'⟩ := h.done e he heok
    rw [← hkv, ← hkv', ← hkt, ← hkt']
    constructor
    · intro hv
      rw [List.inj_on_of_nodup_map h.sources hk hk' hv]
    · intro ht
      rw [List.inj_on_of_nodup_map h.targets hk hk' ht]
  · obtain ⟨k, hk, hkv, hkt⟩ := h.done d hd hok
    obtain ⟨e, he, heok, hcall⟩ := h.logged k hk
    refine ⟨e, he, heok, ?_, ?_⟩
    · rw [hcall, hkv]
    · rw [← hkv, ← hkt, hcall]
      exact h.contents k hk

/-- **What was there before is kept**, when every call is careful. -/
theorem migration_preserves (env : Env) (before : Files) (calls : List Call) (s : Store)
    (log : List Done) (hrun : run env calls (Store.start before) = some (s, log))
    (hc : Careful env calls (Store.start before) []) : Preserved env before log s.files := by
  obtain ⟨ts, copies, h⟩ := (inv_start env before).run hc hrun
  exact h.preserved

/-! ## A file of the same name -/

def sampleEnv : Env where
  KDMCONF := "/k".toList
  oldkde := none
  oldxdm := none
  no_backup := false
  cwd := []
  now := 9
  mayOpen := fun _ => true
  mayCreate := fun _ => true

/-- The files `/a/X` and `/k/X`. -/
def sampleFiles : Files := fun l =>
  if l = [['a'], ['X']] then some ⟨[1], 420, 5⟩ else if l = [['k'], ['X']] then some ⟨[2], 420, 6⟩ else none

def copyOf (value : Path) : Call := ⟨value, 420, fun _ => none⟩

/-- The file that is in its place comes first. -/
theorem preserves_sample : ∃ s log,
    run sampleEnv [copyOf "/k/X".toList, copyOf "/a/X".toList] (Store.start sampleFiles) = some (s, log) ∧
      Preserved sampleEnv sampleFiles log s.files := by
  exact ⟨_, _, rfl, migration_preserves sampleEnv sampleFiles
    [copyOf "/k/X".toList, copyOf "/a/X".toList] _ _ rfl (by decide)⟩

/-- The other way round it is overwritten, and the copy of the other one is moved away. -/
theorem not_preserved : ∃ s log,
    run sampleEnv [copyOf "/a/X".toList, copyOf "/k/X".toList] (Store.start sampleFiles) = some (s, log) ∧
      ¬ Preserved sampleEnv sampleFiles log s.files := by
  refine ⟨_, _, rfl, fun h => ?_⟩
  obtain ⟨e, -, -, -, file, -, hdata⟩ := h.contents _ List.mem_cons_self (by decide)
  exact absurd hdata nofun

end Kdm.Genkdmconf
