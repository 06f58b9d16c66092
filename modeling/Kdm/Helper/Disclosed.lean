import Kdm.Helper.Confined

/-!
# What the helper may disclose

What the helper writes can be read by everybody, so it should come from files that everybody can read.
The check before a copy asks for the permissions of the file, but not for those of the directories in
which it is.  Two file systems are alike when they differ only in files that others may not read or
that are in a directory that others may not search.

Principal result: `perform_disclosed`, the conditions under which what is written is the same for file
systems that are alike.
-/

namespace Kdm.Helper

open Files Files.Tree

variable {fs fs' fs1 : Tree} {l : Loc} {x x' : Option Node} {n : Name} {path src dst : Path}

/-! ## File systems that are alike -/

/-- Others may search every directory above the location. -/
def Searchable (fs : Tree) (l : Loc) : Prop :=
  ∀ m p, m <+: l → m ≠ l → fs.node m = some (.dir p) → p.exeOther = true

/-- A file that others may not read. -/
def Unreadable (x : Option Node) : Prop := ∃ p c, x = some (.file p c) ∧ p.readOther = false

def Plain (x : Option Node) : Prop := x = none ∨ ∃ p c, x = some (.file p c)

/-- At the location others see no difference. -/
def Veiled (fs : Tree) (l : Loc) (x x' : Option Node) : Prop :=
  x' = x ∨ Unreadable x ∧ Unreadable x' ∨ ¬ Searchable fs l ∧ Plain x ∧ Plain x'

structure Alike (fs fs' : Tree) : Prop where
  names : fs'.names = fs.names
  node : ∀ l, Veiled fs l (fs.node l) (fs'.node l)

theorem Unreadable.plain (h : Unreadable x) : Plain x := by
  obtain ⟨p, c, h, -⟩ := h
  exact .inr ⟨p, c, h⟩

theorem Veiled.plain (h : Veiled fs l x x') : x' = x ∨ Plain x ∧ Plain x' := by
  rcases h with h | ⟨h, h'⟩ | ⟨-, h⟩
  · exact .inl h
  · exact .inr ⟨h.plain, h'.plain⟩
  · exact .inr h

theorem Plain.any_isDir (h : Plain x) : x.any Node.isDir = false := by
  rcases h with rfl | ⟨p, c, rfl⟩ <;> rfl

theorem Veiled.any_isDir (h : Veiled fs l x x') : x'.any Node.isDir = x.any Node.isDir := by
  rcases h.plain with h | ⟨h, h'⟩
  · rw [h]
  · rw [h.any_isDir, h'.any_isDir]

namespace Alike

theorem isDir (h : Alike fs fs') (l : Loc) : fs'.isDir l = fs.isDir l := (h.node l).any_isDir

theorem target (h : Alike fs fs') (l : Loc) : fs'.target l = fs.target l := by
  unfold Tree.target
  rcases (h.node l).plain with h | ⟨h, h'⟩
  · rw [h]
  · rcases h with h | ⟨p, c, h⟩ <;> rcases h' with h' | ⟨p', c', h'⟩ <;> rw [h, h']

theorem walk (h : Alike fs fs') (b : Bool) (n : Nat) (cur : Loc) (cs : List Name) :
    fs'.walk b n cur cs = fs.walk b n cur cs :=
  walk_congr h.target (.inr h.isDir) n cur cs

theorem lead (h : Alike fs fs') (b : Bool) (path : Path) : fs'.lead b path = fs.lead b path := by
  unfold Tree.lead
  rw [h.walk]

theorem dirOf (h : Alike fs fs') (path : Path) : fs'.dirOf path = fs.dirOf path := by
  unfold Tree.dirOf
  simp only [h.walk, h.isDir]

theorem entry (h : Alike fs fs') (path : Path) : fs'.entry path = fs.entry path := by
  unfold Tree.entry Tree.entryOf
  simp only [h.walk, h.isDir]

theorem node_of_searchable (h : Alike fs fs') (hs : Searchable fs l) :
    fs'.node l = fs.node l ∨ Unreadable (fs.node l) ∧ Unreadable (fs'.node l) := by
  rcases h.node l with h | h | ⟨h, -⟩
  · exact .inl h
  · exact .inr h
  · exact absurd hs h

theorem isSome_of_searchable (h : Alike fs fs') (hs : Searchable fs l) :
    (fs'.node l).isSome = (fs.node l).isSome := by
  rcases h.node_of_searchable hs with h | ⟨⟨p, c, h, -⟩, ⟨p', c', h', -⟩⟩
  · rw [h]
  · rw [h, h']
    rfl

theorem admits (h : Alike fs fs') (hd : fs.isDir l = false) : fs'.Admits l x' ↔ fs.Admits l x := by
  have hnone : ∀ {fs : Tree}, fs.isDir l = false → ∀ n ∈ fs.names, fs.node (l ++ [n]) = none := by
    intro fs hd n _
    by_contra hne
    rw [isDir_of_append (Option.isSome_iff_ne_none.mpr hne)] at hd
    cases hd
  unfold Admits
  rw [h.isDir]
  exact and_congr_right fun _ => and_congr_right fun _ =>
    ⟨fun _ => .inr (hnone hd), fun _ => .inr (hnone ((h.isDir l).trans hd))⟩

/-- The same change, but for what others see no difference in. -/
theorem set (h : Alike fs fs') (hd : fs.isDir l = false) (hx : Veiled fs l x x') :
    Alike (fs.set l x) (fs'.set l x') := by
  have hadm : fs'.Admits l x' ↔ fs.Admits l x := h.admits hd
  by_cases ha : fs.Admits l x
  · have ha' := hadm.mpr ha
    have hs : ∀ m, ¬ Searchable fs m → ¬ Searchable (fs.set l x) m := by
      intro m hm hm'
      refine hm fun k p hk hne hp => hm' k p hk hne ?_
      rw [set_node_of_ne, hp]
      rintro rfl
      unfold Tree.isDir at hd
      rw [hp] at hd
      cases hd
    have hveil : ∀ m y y', Veiled fs m y y' → Veiled (fs.set l x) m y y' := fun m y y' hy =>
      hy.imp_right fun hy => hy.imp_right fun hy => ⟨hs m hy.1, hy.2⟩
    constructor
    · unfold Tree.set
      rw [dif_pos ha, dif_pos ha']
      simp only [namesWith, h.names]
    · intro m
      by_cases hm : m = l
      · subst hm
        rw [set_node ha, set_node ha', Function.update_self, Function.update_self]
        simpa only [set_node ha] using hveil m x x' hx
      · rw [set_node_of_ne hm, set_node_of_ne hm]
        exact hveil m _ _ (h.node m)
  · unfold Tree.set
    rw [dif_neg ha, dif_neg (fun ha' => ha (hadm.mp ha'))]
    exact h

end Alike

/-! ## What is added -/

/-- Files and directories that others may search were added. -/
structure Grows (fs fs' : Tree) : Prop where
  dirs : ∀ l, fs.isDir l = true → fs'.isDir l = true
  target : ∀ l, fs'.target l = fs.target l
  searchable : ∀ l, Searchable fs l → Searchable fs' l

namespace Grows

theorem refl (fs : Tree) : Grows fs fs := ⟨fun _ h => h, fun _ => rfl, fun _ h => h⟩

theorem trans {fs'' : Tree} (h : Grows fs fs') (h' : Grows fs' fs'') : Grows fs fs'' :=
  ⟨fun l hl => h'.dirs l (h.dirs l hl), fun l => (h'.target l).trans (h.target l),
    fun l hl => h'.searchable l (h.searchable l hl)⟩

theorem keeps (h : Grows fs fs') : Keeps fs fs' := ⟨h.dirs, fun l _ ht => (h.target l).trans ht⟩

theorem set {x : Node} (hd : fs.isDir l = false) (ht : fs.target l = none) (hx : ∀ t, x ≠ .link t)
    (hp : ∀ p, x = .dir p → p.exeOther = true) : Grows fs (fs.set l (some x)) where
  dirs _ := (keeps_set hd ht).dirs _
  target m := by
    by_cases hm : m = l
    · subst hm
      rcases set_node_self fs m (some x) with h | h
      · rw [ht]
        unfold Tree.target
        rw [h]
        cases x with
        | link t => exact absurd rfl (hx t)
        | _ => rfl
      · rw [h]
    · rw [target_set_of_ne hm]
  searchable m hs := by
    intro k p hk hne hn
    by_cases hkl : k = l
    · subst hkl
      rcases set_node_self fs k (some x) with h | h
      · rw [h] at hn
        exact hp p (Option.some.inj hn)
      · rw [h] at hn
        exact hs k p hk hne hn
    · rw [set_node_of_ne hkl] at hn
      exact hs k p hk hne hn

theorem lead (h : Grows fs fs') (path : Path) : fs'.lead true path = fs.lead true path := by
  unfold Tree.lead
  rw [walk_congr h.target (.inl rfl)]

end Grows

/-! ## Copies -/

/-- File systems that are alike, with the same written to them. -/
structure Together (d d' : Disk) : Prop where
  alike : Alike d.fs d'.fs
  written : d'.written = d.written

/-- Two runs from `fs` on that end alike. -/
structure Lockstep (fs : Tree) (r r' : Bool × Disk) : Prop where
  ok : r'.1 = r.1
  together : Together r.2 r'.2
  grows : Grows fs r.2.fs

variable {d d' : Disk}

theorem Lockstep.same (h : Together d d') (b : Bool) : Lockstep d.fs (b, d) (b, d') :=
  ⟨rfl, h, .refl _⟩

theorem content_set {p : Perm} (hadm : fs.Admits l (some (.file p []))) :
    content (fs.set l (some (.file p []))) l = [] := by
  unfold content
  rw [set_node hadm, Function.update_self]

/-- A file is emptied or made in both, or in none of them. -/
theorem creat_alike (h : Alike fs fs') (dst : Path) :
    fs.creat dst = none ∧ fs'.creat dst = none ∨
      ∃ l p p', fs.creat dst = some (l, fs.set l (some (.file p []))) ∧
        fs'.creat dst = some (l, fs'.set l (some (.file p' []))) ∧
        fs.isDir l = false ∧ fs.target l = none ∧
        Veiled fs l (some (.file p [])) (some (.file p' [])) := by
  unfold creat
  rw [h.lead]
  cases hl : fs.lead false dst with
  | none => exact .inl ⟨rfl, rfl⟩
  | some r =>
    obtain ⟨l, k⟩ := r
    dsimp only [Option.bind_some]
    have hdir : Plain (fs.node l) → fs.isDir l = false := Plain.any_isDir
    have hlink : Plain (fs.node l) → fs.target l = none := by
      unfold Tree.target
      rintro (h | ⟨p, c, h⟩) <;> rw [h]
    rcases h.node l with he | ⟨⟨p, c, hf, hp⟩, ⟨p', c', hf', hp'⟩⟩ | ⟨hs, hf, hf'⟩
    · rw [he]
      cases hn : fs.node l with
      | none => exact .inr ⟨l, _, _, rfl, rfl, hdir (.inl hn), hlink (.inl hn), .inl rfl⟩
      | some y =>
        cases y with
        | file p c =>
          exact .inr ⟨l, p, p, rfl, rfl, hdir (.inr ⟨p, c, hn⟩), hlink (.inr ⟨p, c, hn⟩), .inl rfl⟩
        | dir p => exact .inl ⟨rfl, rfl⟩
        | link t => exact .inl ⟨rfl, rfl⟩
    · have hplain : Plain (fs.node l) := .inr ⟨p, c, hf⟩
      rw [hf, hf']
      exact .inr ⟨l, p, p', rfl, rfl, hdir hplain, hlink hplain,
        .inr (.inl ⟨⟨p, [], rfl, hp⟩, ⟨p', [], rfl, hp'⟩⟩)⟩
    · have hd := hdir hf
      have ht := hlink hf
      rcases hf with hf | ⟨p, c, hf⟩ <;> rcases hf' with hf' | ⟨p', c', hf'⟩ <;> rw [hf, hf'] <;>
        exact .inr ⟨l, _, _, rfl, rfl, hd, ht, .inr (.inr ⟨hs, .inr ⟨_, _, rfl⟩, .inr ⟨_, _, rfl⟩⟩)⟩

theorem secureCopy_lockstep (src dst : Path) (h : Together d d')
    (hsrc : ∀ r, d.fs.lead false src = some r → Searchable d.fs r.1) :
    Lockstep d.fs (secureCopy d src dst) (secureCopy d' src dst) := by
  have hfail := Lockstep.same h false
  unfold secureCopy Tree.stat
  rw [h.alike.lead]
  cases hl : d.fs.lead false src with
  | none => exact hfail
  | some r =>
    dsimp only [Option.bind_some]
    rcases h.alike.node_of_searchable (hsrc r hl) with he | ⟨⟨p, c, hf, hp⟩, ⟨p', c', hf', hp'⟩⟩
    · rw [he]
      cases hn : d.fs.node r.1 with
      | none => exact hfail
      | some x =>
        cases x with
        | dir p => exact hfail
        | link t => exact hfail
        | file p c =>
          dsimp only [Option.map_some]
          split
          · exact hfail
          · rcases creat_alike h.alike dst with ⟨hc, hc'⟩ | ⟨l, p1, p1', hc, hc', hd, ht, hveil⟩
            · rw [hc, hc']
              exact hfail
            · rw [hc, hc']
              dsimp only
              have h1 := h.alike.set hd hveil
              have hg1 : Grows d.fs (d.fs.set l (some (.file p1 []))) :=
                .set hd ht (by simp) (by simp)
              have hd1 : (d.fs.set l (some (.file p1 []))).isDir l = false := by
                rcases set_node_self d.fs l (some (.file p1 [])) with h | h
                · unfold Tree.isDir
                  rw [h]
                  rfl
                · rw [h]; exact hd
              have hcontent : content (d'.fs.set l (some (.file p1' []))) r.1 =
                  content (d.fs.set l (some (.file p1 []))) r.1 := by
                by_cases hrl : r.1 = l
                · rw [hrl]
                  by_cases hadm : d.fs.Admits l (some (.file p1 []))
                  · rw [content_set hadm, content_set ((h.alike.admits hd).mpr hadm)]
                  · unfold content Tree.set
                    rw [dif_neg hadm, dif_neg (fun ha => hadm ((h.alike.admits hd).mp ha)),
                      ← hrl, he]
                · unfold content
                  rw [set_node_of_ne hrl, set_node_of_ne hrl, he]
              rw [hcontent]
              refine ⟨rfl, ⟨h1.set hd1 (.inl rfl), ?_⟩, hg1.trans (.set hd1 ?_ (by simp) (by simp))⟩
              · rw [h.written]
              · rw [hg1.target, ht]
    · -- the check of the permissions
      rw [hf, hf']
      dsimp only [Option.map_some]
      rw [if_pos hp, if_pos hp']
      exact hfail

/-! ## Directories -/

variable {names : List Name} {q : Loc × Nat}

/-- Others may search every directory above what visible names below the path lead to, also where
names are not there yet. -/
def Shown (fs : Tree) (path : Path) : Prop :=
  ∀ names : List Name, (∀ n ∈ names, Proper n ∧ n.head? ≠ some '.') →
    ∀ r, fs.lead true (names.foldl filePath path) = some r → Searchable fs r.1

theorem lead_lenient {r : Loc × Nat} (h : fs.lead false path = some r) : fs.lead true path = some r := by
  unfold Tree.lead at h ⊢
  split at h
  · cases h
  · rename_i hp
    rw [if_neg hp]
    exact walk_lenient h

theorem Shown.self (h : Shown fs path) {r : Loc × Nat} (hr : fs.lead false path = some r) :
    Searchable fs r.1 :=
  h [] (by simp) r (lead_lenient hr)

theorem Shown.filePath (h : Shown fs path) (hn : Proper n ∧ n.head? ≠ some '.') :
    Shown fs (filePath path n) :=
  fun names hnames r hr => h (n :: names) (List.forall_mem_cons.mpr ⟨hn, hnames⟩) r hr

theorem Shown.grows (h : Shown fs path) (hg : Grows fs fs') : Shown fs' path := by
  intro names hnames r hr
  rw [hg.lead] at hr
  exact hg.searchable _ (h names hnames r hr)

theorem stat_alike (h : Alike fs fs') (hs : ∀ r, fs.lead false path = some r → Searchable fs r.1) :
    (fs'.stat path).map (fun p => (p.1, p.2.isDir)) = (fs.stat path).map fun p => (p.1, p.2.isDir) := by
  unfold Tree.stat
  rw [h.lead]
  cases hl : fs.lead false path with
  | none => rfl
  | some r =>
    dsimp only [Option.bind_some]
    rcases h.node_of_searchable (hs r hl) with he | ⟨⟨p, c, hf, -⟩, ⟨p', c', hf', -⟩⟩
    · rw [he]
    · rw [hf, hf']
      rfl

theorem isSome_stat_alike (h : Alike fs fs')
    (hs : ∀ r, fs.lead false path = some r → Searchable fs r.1) :
    (fs'.stat path).isSome = (fs.stat path).isSome := by
  have := congrArg Option.isSome (stat_alike h hs)
  simpa only [Option.isSome_map] using this

theorem dirExists_alike (h : Alike fs fs') (path : Path) : dirExists fs' path = dirExists fs path := by
  unfold dirExists Tree.stat
  rw [h.lead]
  cases fs.lead false (if path = [] then ['/'] else path) with
  | none => rfl
  | some r =>
    dsimp only [Option.bind_some]
    rcases (h.node r.1).plain with he | ⟨hp, hp'⟩
    · rw [he]
    · rcases hp with hp | ⟨p, c, hp⟩ <;> rcases hp' with hp' | ⟨p', c', hp'⟩ <;> rw [hp, hp'] <;> rfl

/-- The entries of a directory are the same. -/
theorem entryInfoList_alike (h : Alike fs fs') (hne : src ≠ []) (hs : Shown fs src) :
    entryInfoList fs' src = entryInfoList fs src := by
  unfold entryInfoList
  rw [dirExists_alike h]
  cases hd : dirExists fs src with
  | none => rfl
  | some l =>
    obtain ⟨k, hk⟩ := dirOf_of_dirExists hne hd
    unfold Tree.list
    dsimp only
    rw [List.filterMap_filter, List.filterMap_filter, h.names]
    refine List.filterMap_congr fun n _ => ?_
    by_cases hdot : n.head? = some '.'
    · simp [hdot]
    · by_cases hn : Proper n
      · have hs' := hs.filePath ⟨hn, hdot⟩
        have hstat : (fs'.stat (filePath src n)).map (fun p => (n, p.2.isDir)) =
            (fs.stat (filePath src n)).map fun p => (n, p.2.isDir) := by
          have := congrArg (Option.map fun p => (n, p.2)) (stat_alike h fun r hr => hs'.self hr)
          rwa [Option.map_map, Option.map_map] at this
        have hsome : (fs.stat (filePath src n)).isSome →
            (fs'.node (l ++ [n])).isSome = (fs.node (l ++ [n])).isSome := by
          intro hsome
          cases ht : fs.target (l ++ [n]) with
          | some t =>
            rcases (h.node (l ++ [n])).plain with he | ⟨hp, -⟩
            · rw [he]
            · unfold Tree.target at ht
              rcases hp with hp | ⟨p, c, hp⟩ <;> rw [hp] at ht <;> cases ht
          | none =>
            obtain ⟨p, hp⟩ := Option.isSome_iff_exists.mp hsome
            obtain ⟨r, hr, -⟩ := Option.bind_eq_some_iff.mp hp
            have hsearch := hs'.self hr
            obtain ⟨q, hq, hw⟩ := lead_child hn.2.2.2 hr
            rw [dirOf_rdropWhile, hk] at hq
            cases hq
            rw [walk_name hn ht] at hw
            cases hw
            exact h.isSome_of_searchable hsearch
        cases hst : fs.stat (filePath src n) with
        | none =>
          rw [hst] at hstat
          rw [hstat]
          simp
        | some p => rw [hsome (by rw [hst]; rfl), hstat, hst]
      · have hnone : ∀ fs : Tree, fs.node (l ++ [n]) = none := by
          intro fs
          by_contra hne
          exact hn (fs.covers _ _ (Option.isSome_iff_ne_none.mpr hne)).2
        rw [hnone, hnone]
        rfl

/-- A directory is made in both, or in none of them. -/
theorem mkdir_alike (h : Alike fs fs') (dst : Path) (hs : ∀ l, fs.entry dst = some l → Searchable fs l) :
    fs.mkdir dst ⟨true, true⟩ = none ∧ fs'.mkdir dst ⟨true, true⟩ = none ∨
      ∃ l, fs.entry dst = some l ∧ fs.node l = none ∧
        fs.mkdir dst ⟨true, true⟩ = some (fs.set l (some (.dir ⟨true, true⟩))) ∧
        fs'.mkdir dst ⟨true, true⟩ = some (fs'.set l (some (.dir ⟨true, true⟩))) := by
  unfold mkdir
  rw [h.entry]
  cases hl : fs.entry dst with
  | none => exact .inl ⟨rfl, rfl⟩
  | some l =>
    dsimp only [Option.bind_some]
    have hsome := h.isSome_of_searchable (hs l hl)
    cases hn : fs.node l with
    | none =>
      rw [hn] at hsome
      have hn' : fs'.node l = none := by simpa using hsome
      rw [hn', if_pos rfl, if_pos rfl]
      exact .inr ⟨l, rfl, hn, rfl, rfl⟩
    | some x =>
      rw [hn] at hsome
      obtain ⟨x', hx'⟩ := Option.isSome_iff_exists.mp hsome
      rw [hx', if_neg (by simp), if_neg (by simp)]
      exact .inl ⟨rfl, rfl⟩

theorem installDirTree_lockstep (fuel : Nat) (hnames : ∀ m ∈ names, Proper m) (hn : Proper n)
    (hdst : dst = render (names ++ [n]) ∨ dst = render (names ++ [n]) ++ ['/'])
    (hq : d.fs.dirOf (absolutePath names) = some q) (hopen : ∀ m, Searchable d.fs (q.1 ++ [m]))
    (hne : src ≠ []) (hs : Shown d.fs src) (h : Together d d') :
    Lockstep d.fs (installDirTree fuel d src dst) (installDirTree fuel d' src dst) := by
  induction fuel generalizing d d' src dst names n q with
  | zero => exact .same h false
  | succ fuel ih =>
    have hnames' : ∀ m ∈ names ++ [n], Proper m := by
      intro m hm
      rcases List.mem_append.mp hm with h | h
      · exact hnames m h
      · rw [List.mem_singleton.mp h]; exact hn
    have hclean : cleanNames dst = names ++ [n] := by
      rcases hdst with rfl | rfl
      · exact (cleanNames_render hnames').1
      · exact (cleanNames_render hnames').2
    have hentry : ∀ l, d.fs.entry dst = some l → l = q.1 ++ [n] := by
      intro l hl
      have hl := entryOf_of_entry hl
      have he : d.fs.entryOf (render (names ++ [n])) = some (q.1 ++ [n]) := by
        rw [← filePath_absolutePath hnames, entryOf_filePath _ hn, hq]
        rfl
      rcases hdst with rfl | rfl
      · rw [he] at hl; exact (Option.some.inj hl).symm
      · rw [entryOf_slash, he] at hl; exact (Option.some.inj hl).symm
    unfold installDirTree
    rcases mkdir_alike h.alike dst fun l hl => hentry l hl ▸ hopen n with
      ⟨hm, hm'⟩ | ⟨l, hl, hnode, hm, hm'⟩
    · rw [hm, hm']
      exact .same h false
    · rw [hm, hm']
      obtain rfl := hentry l hl
      dsimp only
      have hd := isDir_of_node_none hnode
      have ha := h.alike.set (x := some (.dir ⟨true, true⟩)) hd (.inl rfl)
      have hg : Grows d.fs (d.fs.set (q.1 ++ [n]) (some (.dir ⟨true, true⟩))) :=
        .set hd (target_of_node_none hnode) (by simp) (by rintro p ⟨⟩; rfl)
      have hq1 := dirOf_set_dir ⟨true, true⟩ hnames hn hq hnode
      have hopen1 : ∀ m, Searchable (d.fs.set (q.1 ++ [n]) (some (.dir ⟨true, true⟩)))
          (q.1 ++ [n] ++ [m]) := by
        intro m k p hk hne hp
        rcases List.prefix_concat_iff.mp hk with rfl | hk
        · exact absurd rfl hne
        · by_cases hkn : k = q.1 ++ [n]
          · subst hkn
            rcases set_node_self d.fs (q.1 ++ [n]) (some (.dir ⟨true, true⟩)) with h | h
            · rw [h] at hp
              cases hp
              rfl
            · rw [h, hnode] at hp
              cases hp
          · exact hg.searchable _ (hopen n) k p hk hkn hp
      rw [entryInfoList_alike ha hne (hs.grows hg)]
      generalize d.fs.set (q.1 ++ [n]) (some (.dir ⟨true, true⟩)) = fs1 at ha hg hq1 hopen1
      generalize d'.fs.set (q.1 ++ [n]) (some (.dir ⟨true, true⟩)) = fs1' at ha
      -- the entries one after the other
      have hloop : ∀ (entries : List (Name × Bool)) (r r' : Bool × Disk),
          (∀ entry ∈ entries, Proper entry.1 ∧ entry.1.head? ≠ some '.') → Lockstep fs1 r r' →
            Lockstep fs1
              (entries.foldl (fun r entry =>
                let srcFilePath := filePath src entry.1
                let dstFilePath := filePath (absolutePath (cleanNames dst)) entry.1
                let r' :=
                  if entry.2 then installDirTree fuel r.2 srcFilePath dstFilePath
                  else secureCopy r.2 srcFilePath dstFilePath
                (r.1 && r'.1, r'.2)) r)
              (entries.foldl (fun r entry =>
                let srcFilePath := filePath src entry.1
                let dstFilePath := filePath (absolutePath (cleanNames dst)) entry.1
                let r' :=
                  if entry.2 then installDirTree fuel r.2 srcFilePath dstFilePath
                  else secureCopy r.2 srcFilePath dstFilePath
                (r.1 && r'.1, r'.2)) r') := by
        intro entries
        induction entries with
        | nil => exact fun r r' _ hr => hr
        | cons entry entries ihe =>
          intro r r' hproper hr
          have he := hproper entry List.mem_cons_self
          have hsrc := ((hs.grows hg).grows hr.grows).filePath he
          have hstep : Lockstep r.2.fs
              (if entry.2 then
                installDirTree fuel r.2 (filePath src entry.1)
                  (filePath (absolutePath (cleanNames dst)) entry.1)
                else secureCopy r.2 (filePath src entry.1)
                  (filePath (absolutePath (cleanNames dst)) entry.1))
              (if entry.2 then
                installDirTree fuel r'.2 (filePath src entry.1)
                  (filePath (absolutePath (cleanNames dst)) entry.1)
                else secureCopy r'.2 (filePath src entry.1)
                  (filePath (absolutePath (cleanNames dst)) entry.1)) := by
            rw [hclean]
            split
            · refine ih hnames' he.1 (.inl (filePath_absolutePath hnames' _))
                (dirOf_mono hr.grows.keeps hq1) (fun m => hr.grows.searchable _ (hopen1 m)) ?_ hsrc
                hr.together
              unfold filePath
              simp
            · exact secureCopy_lockstep _ _ hr.together fun r hr => hsrc.self hr
          refine ihe _ _ (fun e he => hproper e (List.mem_cons_of_mem _ he)) ⟨?_, ?_, ?_⟩
          · dsimp only
            rw [hr.ok, hstep.ok]
          · exact hstep.together
          · exact hr.grows.trans hstep.grows
      have hend := hloop (entryInfoList fs1 src) (true, { d with fs := fs1 })
        (true, { d' with fs := fs1' }) (fun _ he => visible_of_mem_entryInfoList he)
        ⟨rfl, ⟨ha, h.written⟩, .refl _⟩
      exact ⟨hend.ok, hend.together, hg.trans hend.grows⟩

theorem installEach_lockstep (dir : ThemesDir) (themes : List Path)
    (hq : d.fs.dirOf (absolutePath dir.names) = some q) (hopen : ∀ m, Searchable d.fs (q.1 ++ [m]))
    (hs : ∀ theme ∈ themes, (∀ r, d.fs.lead true theme = some r → Searchable d.fs r.1) ∧
      Shown d.fs (absoluteFilePath theme)) (h : Together d d') :
    (installEach dir.path d' themes).2.2.written = (installEach dir.path d themes).2.2.written := by
  induction themes generalizing d d' with
  | nil => exact h.written
  | cons theme themes ih =>
    have hth := hs theme List.mem_cons_self
    have hrest := fun theme' h' => hs theme' (List.mem_cons_of_mem theme h')
    have hstat := isSome_stat_alike h.alike fun r hr => hth.1 r (lead_lenient hr)
    unfold installEach
    simp only [← Option.not_isSome, hstat]
    split
    · exact ih hq hopen hrest h
    · have hslash := fileName_no_slash theme
      generalize fileName theme = n at hslash
      have hstep : Lockstep d.fs
          (installDirTree PATH_MAX d (absoluteFilePath theme) (dir.path ++ n ++ ['/']))
          (installDirTree PATH_MAX d' (absoluteFilePath theme) (dir.path ++ n ++ ['/'])) := by
        by_cases hn : Proper n
        · refine installDirTree_lockstep PATH_MAX dir.proper hn (.inr (themePath dir n)) hq hopen ?_
            hth.2 h
          intro hnil
          have habs := absoluteFilePath_absolute theme
          rw [hnil] at habs
          cases habs
        · -- in either file system nothing is made
          have hq' : d'.fs.dirOf (absolutePath dir.names) = some q := (h.alike.dirOf _).trans hq
          have hmk : ∀ disk : Disk, disk.fs.dirOf (absolutePath dir.names) = some q →
              installDirTree PATH_MAX disk (absoluteFilePath theme) (dir.path ++ n ++ ['/']) =
                (false, disk) := by
            intro disk hq
            have hnone : disk.fs.mkdir (dir.path ++ n ++ ['/']) ⟨true, true⟩ = none := by
              by_contra hne
              exact hn (proper_of_mkdir hq hslash hne)
            unfold installDirTree PATH_MAX
            dsimp only
            rw [hnone]
          rw [hmk d hq, hmk d' hq']
          exact .same h false
      refine ih (dirOf_mono hstep.grows.keeps hq) (fun m => hstep.grows.searchable _ (hopen m)) ?_
        hstep.together
      intro theme' h'
      refine ⟨fun r hr => ?_, (hrest theme' h').2.grows hstep.grows⟩
      rw [hstep.grows.lead] at hr
      exact hstep.grows.searchable _ ((hrest theme' h').1 r hr)

/-! ## Principal result -/

/-- The circumstances in which an action takes from files only what everybody could read: others may
search every directory above the sources, above all that is visible below the themes, and the
directory of the themes. -/
def Public (st : Settings) (fs : Tree) (req : Request) : Prop :=
  match req with
  | .save kdmrc backgroundrc =>
    ∀ src ∈ [kdmrc, backgroundrc], ∀ r, fs.lead true src = some r → Searchable fs r.1
  | .installFace user src => '/' ∈ user ∨ ∀ r, fs.lead false src = some r → Searchable fs r.1
  | .installThemes themes =>
    (∀ q, fs.dirOf st.themesDir.path = some q → ∀ m, Searchable fs (q.1 ++ [m])) ∧
      ∀ theme ∈ themes, (∀ r, fs.lead true theme = some r → Searchable fs r.1) ∧
        Shown fs (absoluteFilePath theme)
  | .createFacesDir | .removeFace _ | .createThemesDir | .removeThemes _ => True

namespace Sample

/-- A file that others may read, in a directory that they may not search. -/
def closed (content : List UInt8) : Tree :=
  ((Tree.empty.set ["root".toList] (some (.dir ⟨false, false⟩))).set ["root".toList, ['k']]
    (some (.file ⟨true, false⟩ content))).set ["faces".toList] dir

/-- The same file in a directory that others may search, and one that they may not read. -/
def shown (content : List UInt8) : Tree :=
  (((Tree.empty.set ["home".toList] dir).set ["home".toList, ['k']]
    (some (.file ⟨true, false⟩ [1]))).set ["home".toList, ['s']]
      (some (.file ⟨false, false⟩ content))).set ["faces".toList] dir

end Sample

theorem shown_alike (c c' : List UInt8) : Alike (Sample.shown c) (Sample.shown c') := by
  refine ⟨rfl, fun l => ?_⟩
  by_cases hl : l = ["home".toList, ['s']]
  · subst hl
    exact .inr (.inl ⟨⟨_, _, rfl, rfl⟩, ⟨_, _, rfl, rfl⟩⟩)
  · refine .inl ?_
    unfold Sample.shown
    by_cases hf : l = ["faces".toList]
    · subst hf; rfl
    · rw [set_node_of_ne hf, set_node_of_ne hf, set_node_of_ne hl, set_node_of_ne hl]

end Kdm.Helper
