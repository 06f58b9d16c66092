import Kdm.Boot.Menu
import Mathlib.Data.List.Nodup

/-!
# Boot options can be selected

An option that is listed can be set, and what is recorded then denotes the entry that the option
was made from: an index among the titles for Grub, a name for the others.  The name of a Grub2 or
Burg entry consists of the titles on the way to it with `>` between them, and the first entry
counts that has the name.

Principal result: `contract_iff`, for which configurations this holds.
-/

namespace Kdm.Boot

/-! ## First indices -/

/-- Every item is the first one that its image is equal to. -/
theorem findIdx_iff {α : Type*} [DecidableEq α] (g : α → α) (l : List α) :
    (∀ i (h : i < l.length), l.findIdx? (· = g l[i]) = some i) ↔ l.Nodup ∧ ∀ x ∈ l, g x = x := by
  constructor
  · intro hall
    have hfix : ∀ i (h : i < l.length), g l[i] = l[i] := fun i h => by
      obtain ⟨_, hi, -⟩ := List.findIdx?_eq_some_iff_getElem.mp (hall i h)
      exact (of_decide_eq_true hi).symm
    refine ⟨List.nodup_iff_pairwise_ne.mpr (List.pairwise_iff_getElem.mpr ?_), fun x hx => ?_⟩
    · intro j i hj hi hlt he
      obtain ⟨_, -, hfirst⟩ := List.findIdx?_eq_some_iff_getElem.mp (hall i hi)
      refine hfirst j hlt (decide_eq_true ?_)
      rw [hfix i hi, he]
    · obtain ⟨i, hi, rfl⟩ := List.getElem_of_mem hx
      exact hfix i hi
  · rintro ⟨hnodup, hfix⟩ i hi
    rw [List.findIdx?_eq_some_iff_getElem]
    refine ⟨hi, decide_eq_true (hfix _ (List.getElem_mem hi)).symm, fun j hj he => ?_⟩
    rw [decide_eq_true_eq, hfix _ (List.getElem_mem hi)] at he
    exact Nat.ne_of_lt hj ((List.Nodup.getElem_inj_iff hnodup).mp he)

theorem length_filterMap_le {α β : Type*} {f g : α → Option β} (h : ∀ a b, f a = some b → g a = some b)
    (l : List α) : (l.filterMap f).length ≤ (l.filterMap g).length := by
  induction l with
  | nil => exact le_refl _
  | cons a l ih =>
    cases hf : f a with
    | none =>
      rw [List.filterMap_cons_none hf]
      cases hg : g a with
      | none => rwa [List.filterMap_cons_none hg]
      | some b => rw [List.filterMap_cons_some hg]; exact Nat.le_succ_of_le ih
    | some b =>
      rw [List.filterMap_cons_some hf, List.filterMap_cons_some (h a b hf)]
      exact Nat.succ_le_succ ih

/-- A narrower selection that has as many items is the same one. -/
theorem eq_of_length_filterMap {α β : Type*} {f g : α → Option β}
    (h : ∀ a b, f a = some b → g a = some b) {l : List α}
    (hlen : (l.filterMap g).length ≤ (l.filterMap f).length) : ∀ a ∈ l, f a = g a := by
  induction l with
  | nil => simp
  | cons a l ih =>
    have hle := length_filterMap_le h l
    cases hf : f a with
    | none =>
      cases hg : g a with
      | none =>
        rw [List.filterMap_cons_none hf, List.filterMap_cons_none hg] at hlen
        exact List.forall_mem_cons.mpr ⟨hf.trans hg.symm, ih hlen⟩
      | some b =>
        rw [List.filterMap_cons_none hf, List.filterMap_cons_some hg, List.length_cons] at hlen
        omega
    | some b =>
      have hg := h a b hf
      rw [List.filterMap_cons_some hf, List.filterMap_cons_some hg] at hlen
      exact List.forall_mem_cons.mpr ⟨hf.trans hg.symm, ih (Nat.le_of_succ_le_succ hlen)⟩

/-! ## Grub -/

/-- The title on a line, blanks in front of the line and at its end aside or not. -/
def titleOf (line : Text) : Option Text := matchKey (line.dropWhile isSpace) "title"

/-- The titles of a `menu.lst`, one for each entry. -/
def titles (lines : List Text) : List Text := lines.filterMap titleOf

/-- All titles stand in the first column, none has blanks at its end, and they are different. -/
structure GrubSound (lines : List Text) : Prop where
  column : ∀ line ∈ lines, (titleOf line).isSome = true → line.dropWhile isSpace = line
  blanks : ∀ t ∈ titles lines, t.rdropWhile isSpace = t
  distinct : (titles lines).Nodup

theorem matchKey_prefix {l ptr : Text} {key : String} (h : matchKey l key = some ptr) :
    key.toList <+: l := by
  unfold matchKey at h
  split at h
  · rename_i hp
    exact List.isPrefixOf_iff_prefix.mp hp.1
  · cases h

theorem head_of_matchKey {l ptr : Text} {key : String} {c : Char} (hc : key.toList.head? = some c)
    (h : matchKey l key = some ptr) : l.head? = some c := by
  obtain ⟨r, hr⟩ := matchKey_prefix h
  rw [← hr, List.head?_append, hc]
  rfl

theorem grubTitles_fst (r : List Text × Int) (lines : List Text) :
    (grubTitles r lines).1 = r.1 ++ (titles lines).map (List.rdropWhile isSpace) := by
  induction lines generalizing r with
  | nil => simp [grubTitles, titles]
  | cons line lines ih =>
    obtain ⟨opts, dflt⟩ := r
    unfold grubTitles
    dsimp only
    cases hd : matchKey (line.dropWhile isSpace) "default" with
    | some ptr =>
      have hnone : titleOf line = none := by
        cases ht : titleOf line with
        | none => rfl
        | some ptr' =>
          have h1 := head_of_matchKey (c := 'd') rfl hd
          rw [head_of_matchKey (c := 't') rfl ht] at h1
          cases h1
      dsimp only
      rw [ih, titles, titles, List.filterMap_cons_none hnone]
    | none =>
      dsimp only
      cases ht : matchKey (line.dropWhile isSpace) "title" with
      | some ptr =>
        have hsome : titleOf line = some ptr := ht
        dsimp only
        rw [ih, titles, titles, List.filterMap_cons_some hsome]
        simp
      | none =>
        have hnone : titleOf line = none := ht
        dsimp only
        rw [ih, titles, titles, List.filterMap_cons_none hnone]

/-- The title on a line, if it stands in the first column. -/
def columnTitle (line : Text) : Option Text := matchKey line "title"

/-- `setGrub` looks at the titles that stand in the first column. -/
theorem grubIndex_eq (opt : Text) (i : Nat) (lines : List Text) :
    grubIndex opt i lines =
      ((lines.filterMap columnTitle).findIdx? (· = opt)).map (· + i) := by
  induction lines generalizing i with
  | nil => rfl
  | cons line lines ih =>
    cases hm : columnTitle line with
    | none =>
      have hi : grubIndex opt i (line :: lines) = grubIndex opt i lines := by
        unfold columnTitle at hm
        conv_lhs => unfold grubIndex
        rw [hm]
      rw [hi, List.filterMap_cons_none hm]
      exact ih i
    | some ptr =>
      have hi : grubIndex opt i (line :: lines) =
          if ptr = opt then some i else grubIndex opt (i + 1) lines := by
        unfold columnTitle at hm
        conv_lhs => unfold grubIndex
        rw [hm]
      rw [hi, List.filterMap_cons_some hm, List.findIdx?_cons]
      by_cases hp : ptr = opt
      · simp [hp]
      · rw [if_neg hp, if_neg (by simpa using hp), ih, Option.map_map]
        refine congrArg (Option.map · _) (funext fun n => ?_)
        simp only [Function.comp_apply]
        omega

theorem titleOf_of_matchKey {line ptr : Text} (h : columnTitle line = some ptr) :
    line.dropWhile isSpace = line ∧ titleOf line = some ptr := by
  have hhead := head_of_matchKey (c := 't') rfl h
  have hline : line.dropWhile isSpace = line := by
    cases line with
    | nil => rfl
    | cons c line =>
      cases hhead
      exact List.dropWhile_cons_of_neg (by decide)
  exact ⟨hline, by rw [titleOf, hline]; exact h⟩

theorem grubIndex_iff (lines : List Text) :
    (∀ i (h : i < (titles lines).length),
        grubIndex ((titles lines)[i].rdropWhile isSpace) 0 lines = some i) ↔ GrubSound lines := by
  have hsel : ∀ line ptr, columnTitle line = some ptr → titleOf line = some ptr :=
    fun _ _ h => (titleOf_of_matchKey h).2
  have hidx (opt : Text) : grubIndex opt 0 lines =
      (lines.filterMap columnTitle).findIdx? (· = opt) := by
    rw [grubIndex_eq]
    simp
  simp only [hidx]
  have hsame (h : ∀ line ∈ lines, columnTitle line = titleOf line) :
      lines.filterMap columnTitle = titles lines := List.filterMap_congr h
  constructor
  · intro hall
    have hlen : (titles lines).length ≤ (lines.filterMap columnTitle).length := by
      by_cases hz : (titles lines).length = 0
      · rw [hz]; exact Nat.zero_le _
      · have hlast := hall ((titles lines).length - 1) (by omega)
        obtain ⟨hlt, -⟩ := List.findIdx?_eq_some_iff_getElem.mp hlast
        omega
    have hline := eq_of_length_filterMap hsel hlen
    rw [hsame hline] at hall
    obtain ⟨hnodup, hfix⟩ := (findIdx_iff (List.rdropWhile isSpace) (titles lines)).mp hall
    refine ⟨fun line hl hsome => ?_, hfix, hnodup⟩
    obtain ⟨ptr, hptr⟩ := Option.isSome_iff_exists.mp hsome
    exact (titleOf_of_matchKey ((hline line hl).trans hptr)).1
  · rintro ⟨hcolumn, hblanks, hdistinct⟩
    have hline : ∀ line ∈ lines, columnTitle line = titleOf line := by
      intro line hl
      cases ht : titleOf line with
      | none =>
        cases hm : columnTitle line with
        | none => rfl
        | some ptr => rw [hsel line ptr hm] at ht; cases ht
      | some ptr =>
        have hcol := hcolumn line hl (by rw [ht]; rfl)
        rw [titleOf, hcol] at ht
        exact ht
    rw [hsame hline]
    exact (findIdx_iff (List.rdropWhile isSpace) (titles lines)).mpr ⟨hdistinct, hblanks⟩

/-! ## Grub2 and Burg -/

/-- The entry that a name selects: the first one with these titles on the way to it. -/
def selected (menu : List Path) (osname : Text) : Option Nat :=
  menu.findIdx? (· = osname.splitOn '>')

/-- No title has a `>` in it, and no two entries have the same titles on the way to them. -/
structure MenuSound (menu : List Path) : Prop where
  plain : ∀ p ∈ menu, PlainPath p
  distinct : menu.Nodup

theorem splitOn_replace_iff {p : Path} (hne : p ≠ []) :
    (replaceInString (listed p) SEP ['>']).splitOn '>' = p ↔ PlainPath p := by
  constructor
  · intro h
    rw [← h]
    exact plainPath_splitOn _
  · intro hp
    rw [replace_listed hp, splitOn_intercalate_path hne hp]

theorem selected_iff {menu : List Path} (hne : ∀ p ∈ menu, p ≠ []) :
    (∀ i (h : i < menu.length),
        selected menu (replaceInString (listed menu[i]) SEP ['>']) = some i) ↔ MenuSound menu := by
  refine (findIdx_iff (fun p => (replaceInString (listed p) SEP ['>']).splitOn '>') menu).trans ?_
  constructor
  · rintro ⟨hnodup, hfix⟩
    exact ⟨fun p hp => (splitOn_replace_iff (hne p hp)).mp (hfix p hp), hnodup⟩
  · rintro ⟨hplain, hdistinct⟩
    exact ⟨hdistinct, fun p hp => (splitOn_replace_iff (hne p hp)).mpr (hplain p hp)⟩

/-- The menu in a file. -/
def fileMenu (sys : BootSystem) (c : Cfg) : Except Bo (List Path) :=
  (openLines (sys.cfg c)).bind menuOf

theorem fileMenu_ne_nil {sys : BootSystem} {c : Cfg} {menu : List Path}
    (h : fileMenu sys c = .ok menu) : ∀ p ∈ menu, p ≠ [] := by
  unfold fileMenu at h
  cases ho : openLines (sys.cfg c) with
  | error e => rw [ho] at h; cases h
  | ok lines => rw [ho] at h; exact menuOf_ne_nil h

/-- The file that Grub2 uses. -/
def grub2Cfg (sys : BootSystem) : Cfg := if (sys.cfg .grub2).isSome then .grub2 else .grub

def grub2Reboot (sys : BootSystem) : String :=
  if (sys.cfg .grub2).isSome then "grub2-reboot" else "grub-reboot"

theorem getGrub2_eq (sys : BootSystem) (v : Statics) :
    getGrub2 sys v = getGrub2OrBurg sys (grub2Cfg sys) (grub2Reboot sys) v := by
  unfold getGrub2 grub2Cfg grub2Reboot
  split <;> rfl

theorem getGrub2OrBurg_eq (sys : BootSystem) (c : Cfg) (exec : String) {v : Statics}
    (hv : v.grubReboot = true ∨ sys.locate exec = true) :
    getGrub2OrBurg sys c exec v =
      ((fileMenu sys c).map fun menu => (menu.map listed, -1, -1),
        { v with grubConfig := some c, grubReboot := true }) := by
  have hor : (v.grubReboot || sys.locate exec) = true := by simpa using hv
  unfold getGrub2OrBurg fileMenu
  simp only [hor, not_true_eq_false, if_false]
  cases openLines (sys.cfg c) with
  | error e => rfl
  | ok lines =>
    change ((grub2Options lines).bind _, _) = _
    rw [grub2Options_eq]
    cases h : menuOf lines with
    | error e => simp [Except.bind, Except.map, h]
    | ok menu => simp [Except.bind, Except.map, h]

/-- What a list of options was made from. -/
theorem of_getGrub2OrBurg {sys : BootSystem} {c : Cfg} {exec : String} {v v' : Statics}
    {opts : List Text} {dflt curr : Int}
    (h : getGrub2OrBurg sys c exec v = (.ok (opts, dflt, curr), v')) :
    ∃ menu, fileMenu sys c = .ok menu ∧ opts = menu.map listed ∧
      v' = { v with grubConfig := some c, grubReboot := true } := by
  by_cases hv : v.grubReboot = true ∨ sys.locate exec = true
  · rw [getGrub2OrBurg_eq sys c exec hv] at h
    obtain ⟨h1, h2⟩ := Prod.mk.inj h
    cases hm : fileMenu sys c with
    | error e => rw [hm] at h1; cases h1
    | ok menu =>
      rw [hm] at h1
      cases h1
      exact ⟨menu, rfl, rfl, h2.symm⟩
  · have hor : (v.grubReboot || sys.locate exec) = false := by simpa using hv
    unfold getGrub2OrBurg at h
    simp only [hor] at h
    cases (Prod.mk.inj h).1

/-- Setting an option of Grub2 or Burg once the program that selects it was located. -/
theorem setGrub2_iff (sys : BootSystem) (opt : Text) (sd : Selection) {v : Statics}
    (hv : v.grubReboot = true) (P : Text → Prop) :
    (∃ sd' v'', setGrub2 sys opt sd v = (.ok sd', v'') ∧ ∃ osname, sd'.osname = some osname ∧
        P osname) ↔
      (∃ menu, fileMenu sys (grub2Cfg sys) = .ok menu ∧ opt ∈ menu.map listed) ∧
        P (replaceInString opt SEP ['>']) := by
  unfold setGrub2
  rw [getGrub2_eq, getGrub2OrBurg_eq sys _ _ (.inl hv)]
  cases fileMenu sys (grub2Cfg sys) with
  | error e =>
    constructor
    · rintro ⟨_, _, h, -⟩
      cases (Prod.mk.inj h).1
    · rintro ⟨⟨_, h, -⟩, -⟩
      cases h
  | ok menu =>
    simp only [Except.map]
    constructor
    · rintro ⟨sd', v'', h, osname, hos, hP⟩
      split at h
      · rename_i hmem
        cases (Prod.mk.inj h).1
        cases hos
        exact ⟨⟨menu, rfl, hmem⟩, hP⟩
      · cases (Prod.mk.inj h).1
    · rintro ⟨⟨menu', h, hmem⟩, hP⟩
      cases h
      rw [if_pos hmem]
      exact ⟨_, _, rfl, _, rfl, hP⟩

/-! ## Lilo -/

/-- The labels of the images. -/
def labels (lines : List Text) : List Text := lines.filterMap fun l => (liloLabel l).map Prod.fst

theorem liloImages_fst (next : Text) (cdef : Nat) (r : Options) (lines : List Text) :
    (liloImages next cdef r lines).1 = r.1 ++ labels lines := by
  induction lines generalizing cdef r with
  | nil => simp [liloImages, labels]
  | cons buf lines ih =>
    obtain ⟨opts, dflt, curr⟩ := r
    unfold liloImages
    cases hl : liloLabel buf with
    | none =>
      dsimp only
      rw [ih]
      simp [labels, hl]
    | some ls =>
      dsimp only
      rw [ih]
      simp [labels, hl]

/-! ## Principal result -/

/-- What is recorded denotes the `i`-th entry of the menu: Grub counts titles, Grub2 and Burg go by
the name, and Lilo takes the first image with the label. -/
def Denotes (m : BootManager) (sys : BootSystem) (sd : Selection) (i : Nat) : Prop :=
  match m with
  | .none => False
  | .grub => sd.osindex = i
  | .grub2 => ∃ osname, sd.osname = some osname ∧
      ∃ menu, fileMenu sys (grub2Cfg sys) = .ok menu ∧ selected menu osname = some i
  | .burg => ∃ osname, sd.osname = some osname ∧
      ∃ menu, fileMenu sys .burg = .ok menu ∧ selected menu osname = some i
  | .lilo => ∃ osname, sd.osname = some osname ∧ ∃ run next lines, sys.lilo = some run ∧
      liloHead [] run.lines = some (next, lines) ∧ (labels lines).findIdx? (· = osname) = some i

/-- Every option can be set, and denotes the entry that it was made from. -/
def Contract (m : BootManager) (sys : BootSystem) (v : Statics) (opts : List Text) : Prop :=
  ∀ i (h : i < opts.length) (sd : Selection), ∃ sd' v',
    setBootOption m sys (some opts[i]) sd v = (.ok sd', v') ∧ Denotes m sys sd' i

/-- The configurations that the contract holds for. -/
def SoundConfig (m : BootManager) (sys : BootSystem) : Prop :=
  match m with
  | .none => True
  | .grub => ∀ lines, openLines sys.menu = .ok lines → GrubSound lines
  | .grub2 => ∀ menu, fileMenu sys (grub2Cfg sys) = .ok menu → MenuSound menu
  | .burg => ∀ menu, fileMenu sys .burg = .ok menu → MenuSound menu ∧
      ∀ p ∈ menu, ∃ menu2, fileMenu sys (grub2Cfg sys) = .ok menu2 ∧ listed p ∈ menu2.map listed
  | .lilo => ∀ run next lines, sys.lilo = some run → liloHead [] run.lines = some (next, lines) →
      (labels lines).Nodup ∧ [] ∉ labels lines

variable {sys : BootSystem} {v v' : Statics} {opts : List Text} {dflt curr : Int}

theorem contract_grub (h : getGrub sys v = (.ok (opts, dflt, curr), v')) :
    Contract .grub sys v' opts ↔ SoundConfig .grub sys := by
  unfold getGrub at h
  dsimp only at h
  generalize (if v.grubSetDefault = true ∨ v.grub = true then v else _) = w at h
  split at h
  · cases (Prod.mk.inj h).1
  · obtain ⟨h, rfl⟩ := Prod.mk.inj h
    cases ho : openLines sys.menu with
    | error e => rw [ho] at h; cases h
    | ok lines =>
      rw [ho] at h
      have hopts : (titles lines).map (List.rdropWhile isSpace) = opts := by
        have hfst := grubTitles_fst ([], 0) lines
        rw [List.nil_append] at hfst
        cases h
        exact hfst.symm
      subst hopts
      have hset (i : Nat) (opt : Text) (sd : Selection) :
          (∃ sd' v', setBootOption .grub sys (some opt) sd w = (.ok sd', v') ∧
            Denotes .grub sys sd' i) ↔ grubIndex opt 0 lines = some i := by
        unfold setBootOption setGrub Denotes
        simp only [ho]
        cases grubIndex opt 0 lines with
        | none => simp
        | some j => simp
      have hsound : SoundConfig .grub sys ↔ GrubSound lines := by
        unfold SoundConfig
        simp only [ho]
        exact ⟨fun hs => hs lines rfl, fun hs _ he => by cases he; exact hs⟩
      rw [hsound, ← grubIndex_iff]
      unfold Contract
      simp only [hset, List.length_map, List.getElem_map]
      exact ⟨fun hall i hi => hall i hi ⟨none, 0, 0⟩, fun hall i hi _ => hall i hi⟩

/-- A list of Grub2 or Burg options is a menu; setting goes through the file of Grub2. -/
theorem contract_menu {c : Cfg} {menu : List Path} (hv : v'.grubReboot = true)
    (hmenu : fileMenu sys c = .ok menu) :
    (∀ i (h : i < (menu.map listed).length) (sd : Selection), ∃ sd' v'',
        setGrub2 sys (menu.map listed)[i] sd v' = (.ok sd', v'') ∧
          ∃ osname, sd'.osname = some osname ∧
            ∃ menu, fileMenu sys c = .ok menu ∧ selected menu osname = some i) ↔
      MenuSound menu ∧
        ∀ p ∈ menu, ∃ menu2, fileMenu sys (grub2Cfg sys) = .ok menu2 ∧ listed p ∈ menu2.map listed := by
  have hset (i : Nat) (opt : Text) (sd : Selection) := setGrub2_iff sys opt sd hv
    fun osname => ∃ menu, fileMenu sys c = .ok menu ∧ selected menu osname = some i
  simp only [hset, List.length_map, List.getElem_map]
  simp only [hmenu, Except.ok.injEq, exists_eq_left']
  rw [← selected_iff (fileMenu_ne_nil hmenu)]
  constructor
  · intro hall
    refine ⟨fun i hi => (hall i hi ⟨none, 0, 0⟩).2, fun p hp => ?_⟩
    obtain ⟨i, hi, rfl⟩ := List.getElem_of_mem hp
    exact (hall i hi ⟨none, 0, 0⟩).1
  · rintro ⟨hsel, hmem⟩ i hi _
    exact ⟨hmem _ (List.getElem_mem hi), hsel i hi⟩

theorem contract_lilo (h : getLilo sys v = (.ok (opts, dflt, curr), v')) :
    Contract .lilo sys v' opts ↔ SoundConfig .lilo sys := by
  unfold getLilo at h
  dsimp only at h
  split at h
  · cases (Prod.mk.inj h).1
  · rename_i hlilo
    cases hrun : sys.lilo with
    | none => rw [hrun] at h; cases (Prod.mk.inj h).1
    | some run =>
      rw [hrun] at h
      dsimp only at h
      split at h
      · cases (Prod.mk.inj h).1
      · rename_i hfails
        cases hhead : liloHead [] run.lines with
        | none => rw [hhead] at h; cases (Prod.mk.inj h).1
        | some nl =>
          obtain ⟨next, lines⟩ := nl
          rw [hhead] at h
          obtain ⟨h, hv⟩ := Prod.mk.inj h
          have hopts : opts = labels lines := by
            have hfst := liloImages_fst next 0 ([], 0, -1) lines
            rw [Except.ok.inj h] at hfst
            simpa using hfst
          have hset (i : Nat) (opt : Text) (sd : Selection) :
              (∃ sd' v'', setBootOption .lilo sys (some opt) sd v' = (.ok sd', v'') ∧
                Denotes .lilo sys sd' i) ↔
                opt ≠ [] ∧ opt ∈ labels lines ∧ (labels lines).findIdx? (· = opt) = some i := by
            have hget : getLilo sys v' = (.ok (opts, dflt, curr), v') := by
              have hlilo' : v'.lilo = true := by
                rw [← hv]
                exact not_not.mp hlilo
              have hset : { v' with lilo := v'.lilo || sys.locate "lilo" } = v' := by
                rw [hlilo', Bool.true_or, ← hlilo']
              unfold getLilo
              dsimp only
              rw [if_neg (not_not.mpr (by rw [hlilo', Bool.true_or])), hrun]
              dsimp only
              rw [if_neg hfails, hhead]
              dsimp only
              rw [hset, h]
            unfold setBootOption setLilo Denotes
            simp only [hget, hopts]
            by_cases he : opt = []
            · simp [he]
            · by_cases hm : opt ∈ labels lines
              · simp [he, hm, hrun, hhead]
              · simp [he, hm]
          have hsound : SoundConfig .lilo sys ↔ (labels lines).Nodup ∧ [] ∉ labels lines := by
            unfold SoundConfig
            simp only [hrun, Option.some.injEq]
            refine ⟨fun hs => hs run next lines rfl hhead, ?_⟩
            rintro hs _ next' lines' rfl hhead'
            rw [hhead] at hhead'
            cases hhead'
            exact hs
          rw [hsound]
          have hidx := findIdx_iff id (labels lines)
          simp only [id_eq, implies_true, and_true] at hidx
          unfold Contract
          subst hopts
          simp only [hset]
          constructor
          · intro hall
            refine ⟨hidx.mp fun i hi => (hall i hi ⟨none, 0, 0⟩).2.2, fun hm => ?_⟩
            obtain ⟨i, hi, he⟩ := List.getElem_of_mem hm
            exact (hall i hi ⟨none, 0, 0⟩).1 he
          · rintro ⟨hnodup, hempty⟩ i hi _
            have hmem := List.getElem_mem hi
            exact ⟨fun he => hempty (he ▸ hmem), hmem, hidx.mpr hnodup i hi⟩

/-- **Boot options**: every option that is listed can be set and denotes its entry if and only if
the configuration is sound. -/
theorem contract_iff {m : BootManager} (h : getBootOptions m sys v = (.ok (opts, dflt, curr), v')) :
    Contract m sys v' opts ↔ SoundConfig m sys := by
  cases m with
  | none => cases (Prod.mk.inj h).1
  | grub => exact contract_grub h
  | grub2 =>
    have h2 : getGrub2 sys v = _ := h
    rw [getGrub2_eq] at h2
    obtain ⟨menu, hmenu, rfl, rfl⟩ := of_getGrub2OrBurg h2
    refine (contract_menu (c := grub2Cfg sys) rfl hmenu).trans ?_
    unfold SoundConfig
    simp only [hmenu, Except.ok.injEq]
    constructor
    · rintro ⟨hs, -⟩ _ rfl
      exact hs
    · exact fun hs => ⟨hs menu rfl, fun p hp => ⟨menu, rfl, List.mem_map_of_mem hp⟩⟩
  | burg =>
    obtain ⟨menu, hmenu, rfl, rfl⟩ := of_getGrub2OrBurg (show getGrub2OrBurg _ _ _ _ = _ from h)
    refine (contract_menu (c := .burg) rfl hmenu).trans ?_
    unfold SoundConfig
    simp only [hmenu, Except.ok.injEq]
    constructor
    · rintro hs _ rfl
      exact hs
    · exact fun hs => hs menu rfl
  | lilo => exact contract_lilo h

/-- A machine with Grub that has this `menu.lst`. -/
def grubMachine (lines : List Text) : BootSystem where
  locate _ := true
  menu := some ⟨0, true, lines⟩
  cfg _ := none
  lilo := none

def oneTitle : BootSystem := grubMachine ["title Linux".toList]

theorem contract_oneTitle :
    getBootOptions .grub oneTitle .start =
        (.ok (["Linux".toList], 0, -1), { Statics.start with grubSetDefault := true }) ∧
      (Contract .grub oneTitle { Statics.start with grubSetDefault := true } ["Linux".toList] ↔
        SoundConfig .grub oneTitle) :=
  have h : getBootOptions .grub oneTitle .start =
      (.ok (["Linux".toList], 0, -1), { Statics.start with grubSetDefault := true }) := by
    decide
  ⟨h, contract_iff h⟩

/-- A title that is indented is listed and cannot be set. -/
theorem not_contract : ¬ ∀ m sys v opts dflt curr v',
    getBootOptions m sys v = (.ok (opts, dflt, curr), v') → Contract m sys v' opts := by
  intro hall
  have h := hall .grub (grubMachine ["  title Linux".toList]) .start ["Linux".toList] 0 (-1)
    { Statics.start with grubSetDefault := true } (by decide) 0 (by decide) ⟨none, 0, 0⟩
  obtain ⟨sd', v'', h, -⟩ := h
  have hno : setBootOption .grub (grubMachine ["  title Linux".toList]) (some "Linux".toList)
      ⟨none, 0, 0⟩ { Statics.start with grubSetDefault := true } =
      (.error .noEnt, { Statics.start with grubSetDefault := true }) := by decide
  cases hno.symm.trans h

end Kdm.Boot
