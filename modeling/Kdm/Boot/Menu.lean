import Kdm.Boot.Manager
import Kdm.Lib.Lines

/-!
# Menus

What the configuration of Grub2 means: a list of entries, each with the titles on the way to it.
The options are the entries with their titles joined (`grub2Options_eq`), and the recorded name is
the way with `>` between the titles as long as no title has that character in it
(`replace_listed`).
-/

namespace Kdm.Boot

/-- The titles on the way to an entry. -/
abbrev Path := List Text

/-- The option of an entry. -/
def listed (p : Path) : Text := SEP.intercalate p

/-- The entries so far, and the submenus that are open, the innermost first. -/
structure Menu where
  entries : List Path
  opened : List Path
  inEntry : Bool
  ret : Bool
  deriving DecidableEq, Repr

def Menu.start : Menu := ⟨[], [], false, false⟩

/-- The way to an entry or a submenu from where the menu is. -/
def Menu.path (m : Menu) (title : Text) : Path := m.opened.headD [] ++ [title]

def menuRound (m : Menu) (line : Text) : Option Menu :=
  match grubLine line with
  | .saved => some { m with ret := true }
  | .menuentry ptr =>
    if m.opened.length ≤ GRUB2_MAX_MENU_LEVEL then
      (parseGrubTitle ptr).map fun t =>
        { m with entries := m.entries ++ [m.path t], inEntry := true }
    else some { m with inEntry := true }
  | .submenu ptr =>
    if m.opened.length < GRUB2_MAX_MENU_LEVEL then
      (parseGrubTitle ptr).map fun t =>
        { m with entries := m.entries ++ [m.path t], opened := m.path t :: m.opened }
    else some { m with opened := [] :: m.opened }
  | .close => some (if m.inEntry then { m with inEntry := false } else
      { m with opened := m.opened.tail })
  | .other => some m

/-- The menu of a configuration. -/
def menuOf (lines : List Text) : Except Bo (List Path) :=
  match lines.foldlM menuRound .start with
  | none => .error .io
  | some m => if m.ret then .ok m.entries else .error .noMan

theorem listed_append {p : Path} (hp : p ≠ []) (t : Text) :
    listed (p ++ [t]) = listed p ++ SEP ++ t := by
  induction p with
  | nil => exact (hp rfl).elim
  | cons a p ih =>
    cases p with
    | nil => simp [listed]
    | cons b p =>
      have hih := ih (List.cons_ne_nil b p)
      unfold listed at hih ⊢
      rw [List.cons_append, List.cons_append, List.intercalate_cons_cons, ← List.cons_append, hih,
        List.intercalate_cons_cons]
      simp

/-- The strings of the code and the ways of the menu. -/
structure Sim (st : GrubState) (m : Menu) : Prop where
  opts : st.opts = m.entries.map listed
  menuLvl : st.menuLvl = m.opened.length
  inEntry : st.inEntry = m.inEntry
  ret : st.ret = m.ret
  entries : ∀ p ∈ m.entries, p ≠ []
  menus : ∀ k p, k < GRUB2_MAX_MENU_LEVEL → m.opened.reverse[k]? = some p →
    m.entries[st.menus k]? = some p

namespace Sim

variable {st : GrubState} {m : Menu}

theorem start : Sim .start .start where
  opts := rfl
  menuLvl := rfl
  inEntry := rfl
  ret := rfl
  entries := by simp [Menu.start]
  menus := by simp [Menu.start]

/-- The option that is added is that of the new entry. -/
theorem build (h : Sim st m) (hlvl : m.opened.length ≤ GRUB2_MAX_MENU_LEVEL) (ptr : Text)
    {menus : Nat → Nat} (hmenus : ∀ k < st.menuLvl, menus k = st.menus k) :
    buildBootList st.opts ptr st.menuLvl menus =
      (parseGrubTitle ptr).map fun t => (m.entries ++ [m.path t]).map listed := by
  unfold buildBootList
  refine congrArg (Option.map · _) (funext fun t => ?_)
  rw [h.opts, List.map_append]
  refine congrArg (_ ++ [·]) ?_
  unfold Menu.path
  cases hop : m.opened with
  | nil =>
    rw [h.menuLvl, hop]
    simp [listed]
  | cons p rest =>
    have hpos : 0 < st.menuLvl := by rw [h.menuLvl, hop]; exact Nat.succ_pos _
    have hp : m.entries[st.menus (st.menuLvl - 1)]? = some p := by
      refine h.menus _ p ?_ ?_
      · rw [h.menuLvl]
        rw [hop] at hlvl ⊢
        exact hlvl
      · rw [h.menuLvl, hop]
        simp
    have hne := h.entries p (List.mem_of_getElem? hp)
    rw [if_pos hpos, hmenus _ (Nat.sub_lt hpos Nat.one_pos), List.headD_cons, listed_append hne]
    simp [List.getD_eq_getElem?_getD, hp]

theorem path_ne_nil (m : Menu) (t : Text) : m.path t ≠ [] := by simp [Menu.path]

/-- More entries do not change which one an index is for. -/
theorem getElem?_append {l : List Path} {k : Nat} {p : Path} (h : l[k]? = some p) (p' : Path) :
    (l ++ [p'])[k]? = some p := by
  rw [List.getElem?_append_left (List.getElem?_eq_some_iff.mp h).1, h]

theorem entries_append (h : Sim st m) (t : Text) : ∀ p ∈ m.entries ++ [m.path t], p ≠ [] := by
  intro p hp
  rcases List.mem_append.mp hp with hp | hp
  · exact h.entries p hp
  · rw [List.mem_singleton.mp hp]
    exact path_ne_nil m t

/-- The indices of the submenus that stay open. -/
theorem menus_cons (h : Sim st m) {q : Path} {k : Nat} {p : Path} (hk : k < GRUB2_MAX_MENU_LEVEL)
    (hlt : k < m.opened.length) (hp : (q :: m.opened).reverse[k]? = some p) :
    m.entries[st.menus k]? = some p := by
  rw [List.reverse_cons, List.getElem?_append_left (by rwa [List.length_reverse])] at hp
  exact h.menus k p hk hp

/-- **One round** of the loop is one of the menu. -/
theorem round (h : Sim st m) (line : Text) :
    Option.Rel Sim (grubRound st line) (menuRound m line) := by
  unfold grubRound menuRound
  cases grubLine line with
  | saved => exact .some ⟨h.opts, h.menuLvl, h.inEntry, rfl, h.entries, h.menus⟩
  | menuentry ptr =>
    dsimp only
    by_cases hlvl : m.opened.length ≤ GRUB2_MAX_MENU_LEVEL
    · rw [if_pos (h.menuLvl ▸ hlvl), if_pos hlvl, h.build hlvl ptr fun _ _ => rfl]
      cases parseGrubTitle ptr with
      | none => exact .none
      | some t =>
        exact .some ⟨rfl, h.menuLvl, rfl, h.ret, h.entries_append t, fun k p hk hp =>
          getElem?_append (h.menus k p hk hp) _⟩
    · rw [if_neg (h.menuLvl ▸ hlvl), if_neg hlvl]
      exact .some ⟨h.opts, h.menuLvl, rfl, h.ret, h.entries, h.menus⟩
  | submenu ptr =>
    dsimp only
    by_cases hlvl : m.opened.length < GRUB2_MAX_MENU_LEVEL
    · rw [if_pos (h.menuLvl ▸ hlvl), if_pos hlvl, h.build (Nat.le_of_lt hlvl) ptr fun k hk =>
        Function.update_of_ne (Nat.ne_of_lt hk) _ _]
      cases parseGrubTitle ptr with
      | none => exact .none
      | some t =>
        refine .some ⟨rfl, congrArg (· + 1) h.menuLvl, h.inEntry, h.ret, h.entries_append t,
          fun k p hk hp => ?_⟩
        have hkl : k < (m.path t :: m.opened).length := by
          rw [← List.length_reverse]
          exact (List.getElem?_eq_some_iff.mp hp).1
        dsimp only
        rcases Nat.lt_or_eq_of_le (Nat.le_of_lt_succ hkl) with hlt | heq
        · rw [Function.update_of_ne (by rw [h.menuLvl]; exact Nat.ne_of_lt hlt)]
          exact getElem?_append (h.menus_cons hk hlt hp) _
        · have hpath : p = m.path t := by
            rw [heq, List.reverse_cons, List.getElem?_append_right (by simp)] at hp
            simpa using hp.symm
          rw [heq, ← h.menuLvl, Function.update_self, h.opts, hpath]
          simp
    · rw [if_neg (h.menuLvl ▸ hlvl), if_neg hlvl]
      exact .some ⟨h.opts, congrArg (· + 1) h.menuLvl, h.inEntry, h.ret, h.entries,
        fun k p hk hp => h.menus_cons hk (by omega) hp⟩
  | close =>
    dsimp only
    by_cases hin : m.inEntry = true
    · rw [if_pos (h.inEntry.trans hin), if_pos hin]
      exact .some ⟨h.opts, h.menuLvl, rfl, h.ret, h.entries, h.menus⟩
    · rw [if_neg (by rw [h.inEntry]; exact hin), if_neg hin]
      refine .some ⟨h.opts, ?_, h.inEntry, h.ret, h.entries, fun k p hk hp => ?_⟩
      · dsimp only
        rw [h.menuLvl, List.length_tail]
      · refine h.menus k p hk ?_
        cases hop : m.opened with
        | nil => rw [hop] at hp; exact hp
        | cons q rest =>
          dsimp only at hp
          rw [hop, List.tail_cons] at hp
          rw [List.reverse_cons, List.getElem?_append_left (List.getElem?_eq_some_iff.mp hp).1]
          exact hp
  | other => exact .some h

theorem run (h : Sim st m) (lines : List Text) :
    Option.Rel Sim (lines.foldlM grubRound st) (lines.foldlM menuRound m) := by
  induction lines generalizing st m with
  | nil => exact .some h
  | cons line lines ih =>
    rw [List.foldlM_cons, List.foldlM_cons]
    have hround := h.round line
    generalize grubRound st line = r at hround ⊢
    generalize menuRound m line = r' at hround ⊢
    cases hround with
    | none => exact .none
    | some h' => exact ih h'

end Sim

/-- **The options** are the entries of the menu. -/
theorem grub2Options_eq (lines : List Text) :
    grub2Options lines = (menuOf lines).map (List.map listed) := by
  have hrun := Sim.start.run lines
  unfold grub2Options menuOf
  generalize lines.foldlM grubRound .start = r at hrun ⊢
  generalize lines.foldlM menuRound .start = r' at hrun ⊢
  cases hrun with
  | none => rfl
  | some h =>
    dsimp only
    rw [h.ret, h.opts]
    split <;> rfl

theorem menuOf_ne_nil {lines : List Text} {menu : List Path} (h : menuOf lines = .ok menu) :
    ∀ p ∈ menu, p ≠ [] := by
  have hrun := Sim.start.run lines
  unfold menuOf at h
  generalize lines.foldlM grubRound .start = r at hrun
  generalize lines.foldlM menuRound .start = r' at hrun h
  cases hrun with
  | none => cases h
  | some hs =>
    dsimp only at h
    split at h
    · cases h
      exact hs.entries
    · cases h

/-! ## Names -/

/-- No title has the character in it that stands between titles in a name. -/
def PlainPath (p : Path) : Prop := ∀ t ∈ p, '>' ∉ t

theorem replaceInString_cons (c : Char) (s before after : Text) :
    replaceInString (c :: s) before after =
      if before.isPrefixOf (c :: s) then
        after ++ replaceInString (s.drop (before.length - 1)) before after
      else c :: replaceInString s before after := by
  rw [replaceInString]

theorem not_isPrefixOf_SEP {c : Char} {s : Text} (h : s.head? ≠ some '>') :
    ¬ SEP.isPrefixOf (c :: s) = true := by
  intro hp
  obtain ⟨r, hr⟩ := List.isPrefixOf_iff_prefix.mp hp
  have hs : '>' :: ('>' :: (' ' :: r)) = s := (List.cons.inj hr).2
  exact h (hs ▸ rfl)

theorem head_append_of_not_mem {t s : Text} (ht : '>' ∉ t) (hs : s.head? ≠ some '>') :
    (t ++ s).head? ≠ some '>' := by
  cases t with
  | nil => exact hs
  | cons c t => exact fun he => ht (Option.some.inj he ▸ List.mem_cons_self)

theorem replaceInString_plain {t : Text} (ht : '>' ∉ t) (after : Text) :
    replaceInString t SEP after = t := by
  induction t with
  | nil => rw [replaceInString]
  | cons c t ih =>
    have ht' : '>' ∉ t := fun hm => ht (List.mem_cons_of_mem _ hm)
    have hhead := head_append_of_not_mem ht' (s := []) (by decide)
    rw [List.append_nil] at hhead
    rw [replaceInString_cons, if_neg (not_isPrefixOf_SEP hhead), ih ht']

theorem replaceInString_SEP {t : Text} (ht : '>' ∉ t) (s after : Text) :
    replaceInString (t ++ SEP ++ s) SEP after = t ++ after ++ replaceInString s SEP after := by
  induction t with
  | nil =>
    have hpre : SEP.isPrefixOf (' ' :: '>' :: '>' :: ' ' :: s) = true :=
      List.isPrefixOf_iff_prefix.mpr (List.prefix_append SEP s)
    change replaceInString (' ' :: ('>' :: '>' :: ' ' :: s)) SEP after = _
    rw [replaceInString_cons, if_pos hpre]
    rfl
  | cons c t ih =>
    have ht' : '>' ∉ t := fun hm => ht (List.mem_cons_of_mem _ hm)
    have hhead : (t ++ SEP ++ s).head? ≠ some '>' := by
      rw [List.append_assoc]
      exact head_append_of_not_mem ht' (by simp [SEP])
    rw [List.cons_append, List.cons_append, replaceInString_cons,
      if_neg (not_isPrefixOf_SEP hhead), ih ht']
    simp

/-- **The recorded name** has `>` between the titles. -/
theorem replace_listed {p : Path} (hp : PlainPath p) :
    replaceInString (listed p) SEP ['>'] = ['>'].intercalate p := by
  induction p with
  | nil => exact replaceInString_plain List.not_mem_nil _
  | cons t p ih =>
    have ht : '>' ∉ t := hp t List.mem_cons_self
    cases p with
    | nil =>
      simp only [listed, List.intercalate_singleton]
      exact replaceInString_plain ht _
    | cons t' p =>
      have hih := ih fun t hm => hp t (List.mem_cons_of_mem _ hm)
      unfold listed at hih ⊢
      rw [List.intercalate_cons_cons, List.intercalate_cons_cons, replaceInString_SEP ht, hih]

theorem splitOn_intercalate_path {p : Path} (hne : p ≠ []) (hp : PlainPath p) :
    (['>'].intercalate p).splitOn '>' = p :=
  List.splitOn_intercalate '>' hp hne

theorem plainPath_splitOn (osname : Text) : PlainPath (osname.splitOn '>') :=
  fun _ => Lines.not_mem_of_mem_splitOn

end Kdm.Boot
