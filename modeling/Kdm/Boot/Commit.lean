import Kdm.Boot.Contract

/-!
# A selection after the menu was generated anew

The name that `setGrub2` records is not an option any more when the option was made from several
titles.  `commitGrub2` looks the recorded name up among the options of a configuration that has
another time stamp, and rewrites it once more.

Principal result: `commit_iff`, which options are still selected then.
-/

namespace Kdm.Boot

/-- The name that `setGrub2` makes of an option. -/
abbrev recorded (opt : Text) : Text := replaceInString opt SEP ['>']

/-- The options of a menu that a name recorded for them is found for again: the option of an entry
that is not in a submenu, and the one of an entry in submenus that shares the menu with an entry
whose option is the name. -/
def Recommitted (menu : List Path) (opt : Text) : Prop :=
  '>' ∉ opt ∨ ∃ p ∈ menu, PlainPath p ∧ listed p = opt ∧
    ['>'].intercalate p ∈ menu.map listed ∧
    recorded (['>'].intercalate p) = ['>'].intercalate p

/-- What is run selects an entry that is listed as the option. -/
def SelectsOption (menu : List Path) (opt : Text) (c : Option Command) : Prop :=
  ∃ osname, c = some (.grubReboot osname) ∧
    ∃ i p, selected menu osname = some i ∧ menu[i]? = some p ∧ listed p = opt

/-- An option without a `>` is the title of an entry that is in no submenu. -/
theorem eq_singleton_of_listed {p : Path} (hne : p ≠ []) (h : '>' ∉ listed p) : p = [listed p] := by
  cases p with
  | nil => exact absurd rfl hne
  | cons t p =>
    cases p with
    | nil => simp [listed]
    | cons t' p =>
      refine absurd ?_ h
      unfold listed
      rw [List.intercalate_cons_cons]
      simp [SEP]

theorem selected_of_mem (menu : List Path) (osname : Text) (h : osname.splitOn '>' ∈ menu) :
    ∃ i, selected menu osname = some i ∧ menu[i]? = some (osname.splitOn '>') := by
  obtain ⟨i, hi⟩ : ∃ i, selected menu osname = some i := by
    refine Option.isSome_iff_exists.mp ?_
    rw [selected, List.findIdx?_isSome, List.any_eq_true]
    exact ⟨_, h, decide_eq_true rfl⟩
  obtain ⟨hlt, hp, -⟩ := List.findIdx?_eq_some_iff_getElem.mp hi
  exact ⟨i, hi, by rw [List.getElem?_eq_getElem hlt, of_decide_eq_true hp]⟩

theorem eq_of_selected {menu : List Path} {osname : Text} {i : Nat} {p : Path}
    (h : selected menu osname = some i) (hp : menu[i]? = some p) : p = osname.splitOn '>' := by
  obtain ⟨hlt, he, -⟩ := List.findIdx?_eq_some_iff_getElem.mp h
  rw [List.getElem?_eq_getElem hlt] at hp
  cases hp
  exact of_decide_eq_true he

/-- Looking the recorded name up again leads back to the option in these cases only. -/
theorem recommitted_iff {menu : List Path} (hne : ∀ p ∈ menu, p ≠ []) {opt : Text}
    (hopt : opt ∈ menu.map listed) :
    (recorded opt ∈ menu.map listed ∧
        ∃ i p, selected menu (recorded (recorded opt)) = some i ∧ menu[i]? = some p ∧
          listed p = opt) ↔
      Recommitted menu opt := by
  constructor
  · rintro ⟨hrec, i, p, hi, hp, hlist⟩
    have hsplit := eq_of_selected hi hp
    have hplain : PlainPath p := hsplit ▸ plainPath_splitOn _
    have hname : recorded opt = ['>'].intercalate p := hlist ▸ replace_listed hplain
    refine .inr ⟨p, List.mem_of_getElem? hp, hplain, hlist, hname ▸ hrec, ?_⟩
    rw [← hname]
    calc recorded (recorded opt)
        = ['>'].intercalate ((recorded (recorded opt)).splitOn '>') :=
          (List.intercalate_splitOn '>').symm
      _ = recorded opt := by rw [← hsplit, hname]
  · rintro (hplain | ⟨p, hp, hplain, hlist, hrec, hfix⟩)
    · have hrec : recorded opt = opt := replaceInString_plain hplain _
      obtain ⟨p, hp, hlist⟩ := List.mem_map.mp hopt
      have hone : p = [opt] := hlist ▸ eq_singleton_of_listed (hne p hp) (hlist ▸ hplain)
      have hsplit : opt.splitOn '>' = [opt] := by
        have h := splitOn_intercalate_path (p := [opt]) (by simp) (by simpa [PlainPath] using hplain)
        rwa [List.intercalate_singleton] at h
      rw [hrec, hrec]
      obtain ⟨i, hi, hget⟩ := selected_of_mem menu opt (by
        rw [hsplit, ← hone]
        exact hp)
      exact ⟨hopt, i, _, hi, hget, by rw [hsplit, ← hone, hlist]⟩
    · have hname : recorded opt = ['>'].intercalate p := hlist ▸ replace_listed hplain
      have hsplit := splitOn_intercalate_path (hne p hp) hplain
      rw [hname, hfix]
      obtain ⟨i, hi, hget⟩ := selected_of_mem menu (['>'].intercalate p) (by
        rw [hsplit]
        exact hp)
      exact ⟨hrec, i, _, hi, hget, by rw [hsplit, hlist]⟩

variable {sys sys' : BootSystem} {v v' w : Statics} {opt : Text} {sd sd' : Selection}
  {menu : List Path}

/-- What setting an option of Grub2 leaves behind. -/
theorem of_setGrub2 (h : setGrub2 sys opt sd v = (.ok sd', v')) :
    sd'.osname = some (recorded opt) ∧ v'.grubReboot = true := by
  unfold setGrub2 at h
  rw [getGrub2_eq] at h
  cases hget : getGrub2OrBurg sys (grub2Cfg sys) (grub2Reboot sys) v with
  | mk r w =>
    rw [hget] at h
    dsimp only at h
    cases r with
    | error e => cases (Prod.mk.inj h).1
    | ok o =>
      obtain ⟨opts, dflt, curr⟩ := o
      obtain ⟨-, -, -, rfl⟩ := of_getGrub2OrBurg hget
      dsimp only at h
      split at h
      · obtain ⟨hsd, hv⟩ := Prod.mk.inj h
        cases hsd
        exact ⟨rfl, hv ▸ rfl⟩
      · cases (Prod.mk.inj h).1

/-- What `commitGrub2` runs when the configuration has another time stamp. -/
theorem commitGrub2_eq (hw : w.grubReboot = true) (hstamp : sd.bmstamp ≠ mTime (sys.current w))
    (hmenu : fileMenu sys (grub2Cfg sys) = .ok menu) (osname : Text) :
    commitGrub2 sys sd osname w =
      if osname ∈ menu.map listed then some (.grubReboot (recorded osname)) else none := by
  unfold commitGrub2 setGrub2
  rw [if_pos hstamp, getGrub2_eq, getGrub2OrBurg_eq sys _ _ (.inl hw), hmenu]
  simp only [Except.map]
  by_cases hmem : osname ∈ menu.map listed
  · rw [if_pos hmem, if_pos hmem]
    rfl
  · rw [if_neg hmem, if_neg hmem]

/-- **Committing**: with a configuration of another time that still has the option, the entry is
selected if and only if the option is recommitted. -/
theorem commit_iff (hset : setBootOption .grub2 sys (some opt) sd v = (.ok sd', v'))
    (hw : v'.grubReboot = true → w.grubReboot = true)
    (hstamp : sd'.bmstamp ≠ mTime (sys'.current w))
    (hmenu : fileMenu sys' (grub2Cfg sys') = .ok menu) (hopt : opt ∈ menu.map listed) :
    SelectsOption menu opt (commitBootOption .grub2 sys' sd' w) ↔ Recommitted menu opt := by
  obtain ⟨hname, hv⟩ := of_setGrub2 (show setGrub2 _ _ _ _ = _ from hset)
  have hcommit : commitBootOption .grub2 sys' sd' w =
      if recorded opt ∈ menu.map listed then some (.grubReboot (recorded (recorded opt)))
      else none := by
    unfold commitBootOption
    rw [hname]
    exact commitGrub2_eq (hw hv) hstamp hmenu _
  rw [← recommitted_iff (fileMenu_ne_nil hmenu) hopt, hcommit]
  unfold SelectsOption
  by_cases hmem : recorded opt ∈ menu.map listed
  · simp [hmem]
  · simp [hmem]

/-- A machine with Grub2 that has this configuration. -/
def grub2Machine (mtime : Int) (lines : List String) : BootSystem where
  locate _ := true
  menu := none
  cfg
    | .grub2 => some ⟨mtime, true, ("set ".toList ++ savedEntry) :: lines.map String.toList⟩
    | _ => none
  lilo := none

def flatMachine (mtime : Int) : BootSystem :=
  grub2Machine mtime ["menuentry 'Linux' \x7b", "\x7d"]

def nestedMachine (mtime : Int) : BootSystem :=
  grub2Machine mtime ["submenu 'More' \x7b", "menuentry 'Linux' \x7b", "\x7d", "\x7d"]

def located : Statics := { Statics.start with grubConfig := some .grub2, grubReboot := true }

theorem set_flatMachine : setBootOption .grub2 (flatMachine 0) (some "Linux".toList) ⟨none, 0, 0⟩
    .start = (.ok ⟨some (recorded "Linux".toList), 0, 0⟩, located) := rfl

theorem set_nestedMachine : setBootOption .grub2 (nestedMachine 0)
    (some "More >> Linux".toList) ⟨none, 0, 0⟩ .start =
      (.ok ⟨some (recorded "More >> Linux".toList), 0, 0⟩, located) := rfl

theorem commit_flatMachine :
    SelectsOption [["Linux".toList]] "Linux".toList
        (commitBootOption .grub2 (flatMachine 1) ⟨some (recorded "Linux".toList), 0, 0⟩ located) ↔
      Recommitted [["Linux".toList]] "Linux".toList :=
  commit_iff set_flatMachine id (by decide) (by decide) (by decide)

/-- An entry in a submenu is forgotten. -/
theorem not_commit : ¬ ∀ sys sys' v v' opt sd sd' menu,
    setBootOption .grub2 sys (some opt) sd v = (.ok sd', v') →
    sd'.bmstamp ≠ mTime (sys'.current v') → fileMenu sys' (grub2Cfg sys') = .ok menu →
    opt ∈ menu.map listed → SelectsOption menu opt (commitBootOption .grub2 sys' sd' v') := by
  intro hall
  have hmenu : fileMenu (nestedMachine 1) (grub2Cfg (nestedMachine 1)) =
      .ok [["More".toList], ["More".toList, "Linux".toList]] := by decide
  obtain ⟨osname, hrun, -⟩ := hall _ (nestedMachine 1) _ _ _ _ _ _ set_nestedMachine (by decide) hmenu
    (by decide)
  have hrec : recorded "More >> Linux".toList = "More>Linux".toList :=
    replace_listed (p := ["More".toList, "Linux".toList]) (by simp [PlainPath])
  have hnone : commitBootOption .grub2 (nestedMachine 1) ⟨some "More>Linux".toList, 0, 0⟩ located =
      none := by
    unfold commitBootOption
    exact (commitGrub2_eq rfl (by decide) hmenu _).trans (if_neg (by decide))
  rw [hrec, hnone] at hrun
  cases hrun

end Kdm.Boot
