import Kdm.Boot.Menu

/-!
# The line buffer of Grub2

`getGrub2OrBurg` with the bounds of its arrays.  A line is in a buffer of 1000 bytes, with a NUL
behind it; the loop that drops the blanks at its end goes on in front of the buffer when there is
nothing else in it.

* `checkedLine`, `checkedRound` — a round that fails when it leaves `line`, `menus` or the list of
  options; `InBounds`: the lines for which it does not.
* `Outline` — what the braces of a configuration mean, with every block that is open.

Principal result: `getGrub2OrBurg_ok`.
-/

namespace Kdm.Boot

/-- `sizeof(line)` -/
def LINE : Nat := 1000

/-- What `fGets` leaves in the buffer: there is a NUL behind it, and none in it. -/
structure Line where
  text : Text
  fits : text.length < LINE
  clean : '\x00' ∉ text ∧ '\n' ∉ text

/-! ## Lines -/

/-- `for (; isspace(*(linp + len - 1)); len--)`, with the place of `linp + len`. -/
def trimEnd (line : Text) : Nat → Option Nat
  | 0 => none
  | e + 1 => if ((line)[e]?.map isSpace).getD false then trimEnd line e else some (e + 1)

/-- `match` at a place of the buffer; `memcmp` needs as many bytes as the key has. -/
def matchAt (line : Text) (linp : Nat) (key : String) : Option (Option Text) :=
  if linp + key.toList.length ≤ LINE then some (matchKey (line.drop linp) key) else none

/-- `match` for `set`: how far it shortens the length, and whether the line uses the saved entry. -/
def setAt (line : Text) (linp : Nat) : Option (Nat × Bool) :=
  (matchAt line linp "set").bind fun set =>
    match set with
    | none => some (0, false)
    | some ptr =>
      if line.length - ptr.length + savedEntry.length ≤ LINE then
        some (line.length - ptr.length - linp, savedEntry.isPrefixOf ptr)
      else none

/-- The tests of one round. -/
def checkedLine (line : Text) : Option GrubLine :=
  let linp := (line.takeWhile isSpace).length
  (trimEnd line line.length).bind fun stop =>
  (setAt line linp).bind fun (short, saved) =>
  if saved then some .saved
  else
    (matchAt line linp "menuentry").bind fun m =>
    match m with
    | some ptr => some (.menuentry ptr)
    | none =>
      (matchAt line linp "submenu").bind fun m =>
      match m with
      | some ptr => some (.submenu ptr)
      | none =>
        if stop ≤ short then none
        else some (if (line)[stop - short - 1]? = some '\x7d' then .close else .other)

/-! ## Rounds -/

/-- The variables, with the elements of `menus` that were set. -/
structure CheckedState where
  opts : List Text
  menuLvl : Nat
  inEntry : Bool
  menus : List (Option Nat)
  ret : Bool

def CheckedState.start : CheckedState :=
  ⟨[], 0, false, List.replicate GRUB2_MAX_MENU_LEVEL none, false⟩

/-- `buildBootList`; the inner `none` is a title that is not ended.  The un-quoted title takes the
place of the quoted one. -/
def checkedBuild (opts : List Text) (title : Text) (menuLvl : Nat) (menus : List (Option Nat)) :
    Option (Option (List Text)) :=
  match parseGrubTitle title with
  | none => some none
  | some t =>
    if title.length ≤ t.length then none
    else if 0 < menuLvl then
      (menus[menuLvl - 1]?.join).bind fun i =>
        (opts[i]?).map fun p => some (opts ++ [p ++ SEP ++ t])
    else some (some (opts ++ [t]))

/-- One round of the loop; the inner `none` ends it. -/
def checkedRound (st : CheckedState) (line : Text) : Option (Option CheckedState) :=
  (checkedLine line).bind fun kind =>
  match kind with
  | .saved => some (some { st with ret := true })
  | .menuentry ptr =>
    if st.menuLvl ≤ GRUB2_MAX_MENU_LEVEL then
      (checkedBuild st.opts ptr st.menuLvl st.menus).map fun r =>
        r.map fun opts => { st with opts := opts, inEntry := true }
    else some (some { st with inEntry := true })
  | .submenu ptr =>
    if st.menuLvl < GRUB2_MAX_MENU_LEVEL then
      if st.menuLvl < st.menus.length then
        let menus := st.menus.set st.menuLvl (some st.opts.length)
        (checkedBuild st.opts ptr st.menuLvl menus).map fun r =>
          r.map fun opts => { st with opts := opts, menus := menus, menuLvl := st.menuLvl + 1 }
      else none
    else some (some { st with menuLvl := st.menuLvl + 1 })
  | .close =>
    some (some (if st.inEntry then { st with inEntry := false }
      else { st with menuLvl := st.menuLvl - 1 }))
  | .other => some (some st)

/-- The loop; nothing when it leaves an array. -/
def checkedLoop (st : CheckedState) : List Line → Option (Except Bo (List Text))
  | [] => some (if st.ret then .ok st.opts else .error .noMan)
  | line :: lines =>
    match checkedRound st line.text with
    | none => none
    | some none => some (.error .io)
    | some (some st) => checkedLoop st lines

/-! ## What the braces mean -/

/-- A block that is open; a submenu with the titles on the way to it. -/
inductive Block where
  | entry
  | submenu (path : Path)
  deriving DecidableEq

def Block.path : Block → Option Path
  | .entry => none
  | .submenu path => some path

/-- The entries so far, and the blocks that are open, the innermost first. -/
structure Outline where
  entries : List Path
  blocks : List Block
  ret : Bool
  deriving DecidableEq

def Outline.start : Outline := ⟨[], [], false⟩

/-- The submenus around a line. -/
def Outline.enclosing (o : Outline) : List Path := o.blocks.filterMap Block.path

def Outline.path (o : Outline) (title : Text) : Path := o.enclosing.headD [] ++ [title]

/-- What a line is: the end of a block is a brace at the end of the line, unless this is the brace
of a variable in a `set`. -/
def outlineLine (line : Text) : GrubLine :=
  let linp := line.dropWhile isSpace
  match matchKey linp "set" with
  | some ptr => if savedEntry.isPrefixOf ptr then .saved else .other
  | none =>
    match matchKey linp "menuentry" with
    | some ptr => .menuentry ptr
    | none =>
      match matchKey linp "submenu" with
      | some ptr => .submenu ptr
      | none => if (linp.rdropWhile isSpace).getLast? = some '\x7d' then .close else .other

def outlineRound (o : Outline) (line : Text) : Option Outline :=
  match outlineLine line with
  | .saved => some { o with ret := true }
  | .menuentry ptr =>
    if o.enclosing.length ≤ GRUB2_MAX_MENU_LEVEL then
      (parseGrubTitle ptr).map fun t =>
        { o with entries := o.entries ++ [o.path t], blocks := .entry :: o.blocks }
    else some { o with blocks := .entry :: o.blocks }
  | .submenu ptr =>
    if o.enclosing.length < GRUB2_MAX_MENU_LEVEL then
      (parseGrubTitle ptr).map fun t =>
        { o with entries := o.entries ++ [o.path t], blocks := .submenu (o.path t) :: o.blocks }
    else some { o with blocks := .submenu [] :: o.blocks }
  | .close => some { o with blocks := o.blocks.tail }
  | .other => some o

/-- The entries of a configuration that sets a default, as long as all titles are ended. -/
def outlineOf (o : Outline) : List Line → Except Bo (List Path)
  | [] => if o.ret then .ok o.entries else .error .noMan
  | line :: lines =>
    match outlineRound o line.text with
    | none => .error .io
    | some o => outlineOf o lines

/-- **The property**: no array is left, and the options are the entries with their titles joined. -/
def Parsed (lines : List Line) : Prop :=
  ∃ r, checkedLoop .start lines = some r ∧
    ∀ opts, r = .ok opts → ∃ entries, outlineOf .start lines = .ok entries ∧ opts = entries.map listed

/-! ## Lines in the buffer -/

/-- The rounds that stay in the buffer: there is something in the line, and the keys that it is
compared with do not reach over the end of the buffer. -/
structure InBounds (line : Text) : Prop where
  nonblank : ∃ c ∈ line, isSpace c = false
  key : (line.takeWhile isSpace).length + 9 ≤ LINE
  set : ∀ ptr, matchKey (line.dropWhile isSpace) "set" = some ptr →
    line.length - ptr.length + savedEntry.length ≤ LINE

/-- Every line that the loop comes to stays in the buffer. -/
def AllInBounds (st : GrubState) : List Line → Prop
  | [] => True
  | line :: lines =>
    InBounds line.text ∧ ∀ st', grubRound st line.text = some st' → AllInBounds st' lines

/-- The character that is taken for the last one of a `set` is no brace. -/
def SetPlain (line : Text) : Prop :=
  let linp := line.dropWhile isSpace
  ∀ ptr, matchKey linp "set" = some ptr → ¬ savedEntry.isPrefixOf ptr →
    linp[(linp.rdropWhile isSpace).length - (linp.length - ptr.length) - 1]? ≠ some '\x7d'

/-- The line does not start a block within an entry. -/
def Leaf (o : Outline) (line : Text) : Prop :=
  ∀ ptr, outlineLine line = .menuentry ptr ∨ outlineLine line = .submenu ptr → Block.entry ∉ o.blocks

/-- There are no blocks in the entries of a configuration. -/
def Tidy (o : Outline) : List Line → Prop
  | [] => True
  | line :: lines =>
    SetPlain line.text ∧ Leaf o line.text ∧
      ∀ o', outlineRound o line.text = some o' → Tidy o' lines

theorem trimEnd_eq (line : Text) {e : Nat} (he : e ≤ line.length) :
    trimEnd line e = if (line.take e).all isSpace then none
      else some ((line.take e).rdropWhile isSpace).length := by
  induction e with
  | zero => rfl
  | succ e ih =>
    have hlt : e < line.length := he
    rw [trimEnd, List.getElem?_eq_getElem hlt, List.take_succ_eq_append_getElem hlt,
      List.rdropWhile_concat, List.all_append]
    by_cases hc : isSpace (line)[e] = true
    · simp [hc, ih (Nat.le_of_lt hlt)]
    · simp [hc]
      exact he

theorem trimEnd_length (line : Text) : trimEnd line line.length =
    if line.all isSpace then none else some (line.rdropWhile isSpace).length := by
  rw [trimEnd_eq line (Nat.le_refl _), List.take_length]

theorem rdropWhile_append {p : Char → Bool} (a : Text) {b : Text} (hb : ∃ c ∈ b, p c = false) :
    (a ++ b).rdropWhile p = a ++ b.rdropWhile p := by
  obtain ⟨c, hc, hpc⟩ := hb
  have hne : (b.reverse.dropWhile p).isEmpty = false := by
    rw [List.isEmpty_eq_false_iff, ne_eq, List.dropWhile_eq_nil_iff]
    exact fun h => by simp [h c (List.mem_reverse.mpr hc)] at hpc
  rw [List.rdropWhile, List.reverse_append, List.dropWhile_append, hne, List.rdropWhile]
  simp

/-- A text that is found is the end of the line, and it starts with something. -/
theorem matchKey_some {buf ptr : Text} {key : String} (h : matchKey buf key = some ptr) :
    ∃ pre c rest, buf = pre ++ ptr ∧ key.toList.length < pre.length ∧ ptr = c :: rest ∧
      isSpace c = false := by
  unfold matchKey at h
  split at h
  · rename_i hk
    split at h
    · cases h
    · rename_i q hq
      cases h
      have hlt : key.toList.length < buf.length := by
        refine Classical.byContradiction fun hn => ?_
        rw [List.getElem?_eq_none (Nat.le_of_not_lt hn)] at hk
        simp at hk
      set rest := buf.drop (key.toList.length + 1) with hrest
      cases hr : rest.dropWhile isSpace with
      | nil => exact absurd hr hq
      | cons c l =>
        have hc : isSpace c = false := by
          have := List.head_dropWhile_not isSpace (l := rest) (by simp [hr])
          simpa [hr] using this
        refine ⟨buf.take (key.toList.length + 1) ++ rest.takeWhile isSpace, c, l, ?_, ?_, rfl, hc⟩
        · rw [← hr, List.append_assoc, List.takeWhile_append_dropWhile, hrest, List.take_append_drop]
        · rw [List.length_append, List.length_take]
          omega
  · cases h

/-- The blanks in front of a line. -/
theorem lead_append (line : Text) :
    line = line.takeWhile isSpace ++ line.dropWhile isSpace :=
  List.takeWhile_append_dropWhile.symm

theorem drop_lead (line : Text) :
    line.drop (line.takeWhile isSpace).length = line.dropWhile isSpace := by
  conv_lhs => arg 2; rw [lead_append line]
  rw [List.drop_left]

theorem length_lead (line : Text) :
    line.length = (line.takeWhile isSpace).length + (line.dropWhile isSpace).length := by
  conv_lhs => rw [lead_append line]
  rw [List.length_append]

theorem nonblank_drop {line : Text} (h : ∃ c ∈ line, isSpace c = false) :
    ∃ c ∈ line.dropWhile isSpace, isSpace c = false := by
  obtain ⟨c, hc, hsp⟩ := h
  rw [lead_append line] at hc
  rcases List.mem_append.mp hc with hc | hc
  · have := List.mem_takeWhile_imp hc
    rw [hsp] at this
    cases this
  · exact ⟨c, hc, hsp⟩

/-- How far the length is shortened, and whether the line uses the saved entry. -/
def setShort (linp : Text) : Nat × Bool :=
  match matchKey linp "set" with
  | none => (0, false)
  | some ptr => (linp.length - ptr.length, savedEntry.isPrefixOf ptr)

theorem setLine_eq (linp : Text) : setLine linp =
    ((linp.rdropWhile isSpace).length - (setShort linp).1, (setShort linp).2) := by
  unfold setLine setShort
  cases matchKey linp "set" <;> rfl

theorem setAt_eq {line : Text} (h : InBounds line) :
    setAt line (line.takeWhile isSpace).length = some (setShort (line.dropWhile isSpace)) := by
  have hkey : (line.takeWhile isSpace).length + "set".toList.length ≤ LINE :=
    Nat.le_trans (Nat.add_le_add_left (by decide) _) h.key
  have hset := h.set
  unfold setAt matchAt setShort
  rw [if_pos hkey, drop_lead, Option.bind_some]
  cases hm : matchKey (line.dropWhile isSpace) "set" with
  | none => rfl
  | some ptr =>
    dsimp only
    rw [if_pos (hset ptr hm), length_lead line]
    congr 2
    omega

/-- Something is left of a line that is not blank. -/
theorem length_rdropWhile_pos {l : Text} (h : ∃ c ∈ l, isSpace c = false) :
    0 < (l.rdropWhile isSpace).length := by
  obtain ⟨c, hc, hsp⟩ := h
  rw [List.length_pos_iff, ne_eq, List.rdropWhile_eq_nil_iff]
  exact fun h => by simp [h c hc] at hsp

theorem setShort_lt {linp : Text} (h : ∃ c ∈ linp, isSpace c = false) :
    (setShort linp).1 < (linp.rdropWhile isSpace).length := by
  unfold setShort
  cases hm : matchKey linp "set" with
  | none => exact length_rdropWhile_pos h
  | some ptr =>
    obtain ⟨pre, c, rest, rfl, _, rfl, hc⟩ := matchKey_some hm
    have hptr : ∃ d ∈ c :: rest, isSpace d = false := ⟨c, List.mem_cons_self, hc⟩
    have hpos := length_rdropWhile_pos hptr
    rw [rdropWhile_append pre hptr]
    simp only [List.length_append]
    omega

/-- **A round that stays in the buffer** takes the line for what it is. -/
theorem checkedLine_of_inBounds {line : Text} (h : InBounds line) :
    checkedLine line = some (grubLine line) := by
  set linp := line.dropWhile isSpace with hlinp
  have hnb := nonblank_drop h.nonblank
  have hstop : trimEnd line line.length =
      some ((line.takeWhile isSpace).length + (linp.rdropWhile isSpace).length) := by
    have hall : line.all isSpace = false := by
      obtain ⟨c, hc, hsp⟩ := h.nonblank
      exact List.all_eq_false.mpr ⟨c, hc, by simp [hsp]⟩
    rw [trimEnd_length, hall, ← List.length_append, ← rdropWhile_append _ hnb, ← lead_append]
    rfl
  have hkey : ∀ key : String, key.toList.length ≤ 9 →
      matchAt line (line.takeWhile isSpace).length key = some (matchKey linp key) := by
    intro key hlen
    rw [matchAt, if_pos (Nat.le_trans (Nat.add_le_add_left hlen _) h.key), drop_lead]
  have hlt := setShort_lt hnb
  rw [← hlinp] at hlt
  unfold checkedLine grubLine
  simp only [hstop, setAt_eq h, Option.bind_some, ← hlinp, setLine_eq]
  cases (setShort linp).2 with
  | true => rfl
  | false =>
    rw [if_neg Bool.false_ne_true, if_neg Bool.false_ne_true, hkey "menuentry" (by decide)]
    cases matchKey linp "menuentry" with
    | some ptr => rfl
    | none =>
      dsimp only [Option.bind_some]
      rw [hkey "submenu" (by decide)]
      cases matchKey linp "submenu" with
      | some ptr => rfl
      | none =>
        dsimp only [Option.bind_some]
        have hat : (line)[(line.takeWhile isSpace).length + (linp.rdropWhile isSpace).length -
            (setShort linp).1 - 1]? = linp[(linp.rdropWhile isSpace).length - (setShort linp).1 - 1]? := by
          conv_lhs => arg 1; rw [lead_append line, ← hlinp]
          rw [List.getElem?_append_right (by omega)]
          congr 1
          omega
        rw [if_neg (by omega), hat]
        simp only [Nat.sub_pos_of_lt hlt, true_and]

theorem inBounds_of_checkedLine {line : Text} (hfits : line.length < LINE)
    (h : checkedLine line ≠ none) : InBounds line := by
  have hnb : ∃ c ∈ line, isSpace c = false := by
    refine Classical.byContradiction fun hno => h ?_
    have hall : line.all isSpace = true := by
      rw [List.all_eq_true]
      exact fun c hc => Classical.byContradiction fun hn => hno ⟨c, hc, by simpa using hn⟩
    unfold checkedLine
    rw [trimEnd_length, hall]
    rfl
  have hset : ∀ ptr, matchKey (line.dropWhile isSpace) "set" = some ptr →
      line.length - ptr.length + savedEntry.length ≤ LINE := by
    intro ptr hm
    refine Classical.byContradiction fun hn => h ?_
    have hnone : setAt line (line.takeWhile isSpace).length = none := by
      unfold setAt matchAt
      rw [drop_lead, hm]
      split
      · exact if_neg hn
      · rfl
    dsimp only [checkedLine]
    rw [hnone]
    cases trimEnd line line.length <;> rfl
  refine ⟨hnb, Classical.byContradiction fun hn => h ?_, hset⟩
  -- the keys do not fit, so the line is too short for the saved entry
  have hfar : ∀ key : String, 9 ≤ key.toList.length →
      matchAt line (line.takeWhile isSpace).length key = none := fun key hlen =>
    if_neg fun hle => hn (Nat.le_trans (Nat.add_le_add_left hlen _) hle)
  have hsaved : ∀ r, setAt line (line.takeWhile isSpace).length = some r → r.2 = false := by
    intro r hr
    unfold setAt matchAt at hr
    rw [drop_lead] at hr
    split at hr
    · cases hm : matchKey (line.dropWhile isSpace) "set" with
      | none =>
        rw [hm] at hr
        cases hr
        rfl
      | some ptr =>
        rw [hm] at hr
        dsimp only [Option.bind_some] at hr
        rw [if_pos (hset ptr hm)] at hr
        cases hr
        obtain ⟨pre, _, _, hpre, hlen, _⟩ := matchKey_some hm
        have hline := length_lead line
        rw [hpre, List.length_append] at hline
        refine Classical.byContradiction fun hs => ?_
        have hle := (List.isPrefixOf_iff_prefix.mp (Bool.not_eq_false _ ▸ hs)).length_le
        have h24 : savedEntry.length = 24 := by decide
        omega
    · cases hr
  dsimp only [checkedLine]
  cases trimEnd line line.length with
  | none => rfl
  | some stop =>
    dsimp only [Option.bind_some]
    cases hs : setAt line (line.takeWhile isSpace).length with
    | none => rfl
    | some r =>
      dsimp only [Option.bind_some]
      rw [hsaved r hs, if_neg Bool.false_ne_true, hfar "menuentry" (by decide)]
      rfl

/-! ## Rounds in the arrays -/

theorem length_quotedTitle {s t : Text} (h : quotedTitle s = some t) : t.length < s.length := by
  fun_induction quotedTitle s generalizing t with
  | case1 => cases h
  | case2 => cases h; simp
  | case3 => cases h
  | case4 c s ih =>
    obtain ⟨t', ht', rfl⟩ := Option.map_eq_some_iff.mp h
    have := ih ht'
    split <;> simp <;> omega
  | case5 c s _ _ _ ih =>
    obtain ⟨t', ht', rfl⟩ := Option.map_eq_some_iff.mp h
    have := ih ht'
    simp
    omega

theorem length_bareTitle {s t : Text} (h : bareTitle s = some t) : t.length < s.length := by
  fun_induction bareTitle s generalizing t with
  | case1 => cases h
  | case2 => cases h
  | case3 c s ih =>
    obtain ⟨t', ht', rfl⟩ := Option.map_eq_some_iff.mp h
    have := ih ht'
    simp
    omega
  | case4 => cases h; simp
  | case5 c s _ _ _ ih =>
    obtain ⟨t', ht', rfl⟩ := Option.map_eq_some_iff.mp h
    have := ih ht'
    simp
    omega

/-- The title takes less than what it is read from. -/
theorem length_parseGrubTitle {s t : Text} (h : parseGrubTitle s = some t) :
    t.length < s.length := by
  unfold parseGrubTitle at h
  split at h
  · rename_i s
    split at h
    · cases h
      exact Nat.lt_succ_of_le (List.takeWhile_prefix _).length_le
    · cases h
  · exact Nat.lt_succ_of_lt (length_quotedTitle h)
  · exact length_bareTitle h

/-- The checked state of a state whose indices are in their arrays. -/
structure Bounded (c : CheckedState) (st : GrubState) : Prop where
  opts : c.opts = st.opts
  menuLvl : c.menuLvl = st.menuLvl
  inEntry : c.inEntry = st.inEntry
  ret : c.ret = st.ret
  length : c.menus.length = GRUB2_MAX_MENU_LEVEL
  menus : ∀ k < GRUB2_MAX_MENU_LEVEL, k < st.menuLvl → c.menus[k]? = some (some (st.menus k))

theorem checkedBuild_eq {opts : List Text} {lvl : Nat} {cmenus : List (Option Nat)}
    (menus : Nat → Nat) (title : Text)
    (h : 0 < lvl → cmenus[lvl - 1]? = some (some (menus (lvl - 1))) ∧
      menus (lvl - 1) < opts.length) :
    checkedBuild opts title lvl cmenus = some (buildBootList opts title lvl menus) := by
  unfold checkedBuild buildBootList
  cases ht : parseGrubTitle title with
  | none => rfl
  | some t =>
    dsimp only
    rw [if_neg (Nat.not_le_of_lt (length_parseGrubTitle ht))]
    by_cases hl : 0 < lvl
    · obtain ⟨hi, hlt⟩ := h hl
      rw [if_pos hl, hi, Option.join_some, Option.bind_some, List.getElem?_eq_getElem hlt,
        Option.map_some, Option.map_some, if_pos hl, List.getD_eq_getElem?_getD,
        List.getElem?_eq_getElem hlt, Option.getD_some]
    · rw [if_neg hl, Option.map_some, if_neg hl]

namespace Bounded

variable {c : CheckedState} {st : GrubState} {m : Menu}

theorem start : Bounded .start .start :=
  ⟨rfl, rfl, rfl, rfl, rfl, fun k _ hk => absurd hk (Nat.not_lt_zero k)⟩

/-- The option of a submenu that is open. -/
theorem parent (hs : Sim st m) {k : Nat} (hk : k < GRUB2_MAX_MENU_LEVEL) (hlt : k < st.menuLvl) :
    st.menus k < st.opts.length := by
  have hlen : k < m.opened.reverse.length := by rwa [List.length_reverse, ← hs.menuLvl]
  have := hs.menus k _ hk (List.getElem?_eq_getElem hlen)
  rw [hs.opts, List.length_map]
  exact (List.getElem?_eq_some_iff.mp this).1

/-- **One round** stays in the arrays. -/
theorem round (h : Bounded c st) (hs : Sim st m) {line : Text} (hin : InBounds line) :
    ∃ r, checkedRound c line = some r ∧ Option.Rel Bounded r (grubRound st line) := by
  unfold checkedRound grubRound
  rw [checkedLine_of_inBounds hin, Option.bind_some]
  cases grubLine line with
  | saved => exact ⟨_, rfl, .some ⟨h.opts, h.menuLvl, h.inEntry, rfl, h.length, h.menus⟩⟩
  | menuentry ptr =>
    dsimp only
    rw [h.menuLvl, h.opts]
    by_cases hlvl : st.menuLvl ≤ GRUB2_MAX_MENU_LEVEL
    · rw [if_pos hlvl, if_pos hlvl, checkedBuild_eq st.menus ptr fun hpos => ?_, Option.map_some]
      · refine ⟨_, rfl, ?_⟩
        cases buildBootList st.opts ptr st.menuLvl st.menus with
        | none => exact .none
        | some opts => exact .some ⟨rfl, rfl, rfl, h.ret, h.length, h.menus⟩
      · exact ⟨h.menus _ (by omega) (by omega), parent hs (by omega) (by omega)⟩
    · rw [if_neg hlvl, if_neg hlvl]
      exact ⟨_, rfl, .some ⟨rfl, rfl, rfl, h.ret, h.length, h.menus⟩⟩
  | submenu ptr =>
    dsimp only
    rw [h.menuLvl, h.opts]
    by_cases hlvl : st.menuLvl < GRUB2_MAX_MENU_LEVEL
    · have hset : ∀ k, k < GRUB2_MAX_MENU_LEVEL → k < st.menuLvl + 1 →
          (c.menus.set st.menuLvl (some st.opts.length))[k]? =
            some (some (Function.update st.menus st.menuLvl st.opts.length k)) := by
        intro k hk hlt
        by_cases hkl : st.menuLvl = k
        · rw [← hkl, Function.update_self, List.getElem?_set_self (by rw [h.length]; exact hlvl)]
        · rw [Function.update_of_ne (Ne.symm hkl), List.getElem?_set_ne hkl]
          exact h.menus k hk (by omega)
      have hlen : st.menuLvl < c.menus.length := by rw [h.length]; exact hlvl
      rw [if_pos hlvl, if_pos hlvl, if_pos hlen,
        checkedBuild_eq (Function.update st.menus st.menuLvl st.opts.length) ptr fun hpos => ?_,
        Option.map_some]
      · refine ⟨_, rfl, ?_⟩
        cases buildBootList st.opts ptr st.menuLvl _ with
        | none => exact .none
        | some opts =>
          exact .some ⟨rfl, rfl, h.inEntry, h.ret, by rw [List.length_set]; exact h.length, hset⟩
      · refine ⟨hset _ (by omega) (by omega), ?_⟩
        rw [Function.update_of_ne (by omega)]
        exact parent hs (by omega) (by omega)
    · rw [if_neg hlvl, if_neg hlvl]
      exact ⟨_, rfl, .some ⟨rfl, rfl, h.inEntry, h.ret, h.length, fun k hk _ =>
        h.menus k hk (by omega)⟩⟩
  | close =>
    dsimp only
    rw [h.inEntry]
    by_cases hin : st.inEntry = true
    · rw [if_pos hin, if_pos hin]
      exact ⟨_, rfl, .some ⟨h.opts, h.menuLvl, rfl, h.ret, h.length, h.menus⟩⟩
    · rw [if_neg hin, if_neg hin]
      exact ⟨_, rfl, .some ⟨h.opts, congrArg (· - 1) h.menuLvl, rfl, h.ret, h.length,
        fun k hk hlt => h.menus k hk (Nat.lt_of_lt_of_le hlt (Nat.sub_le _ _))⟩⟩
  | other => exact ⟨_, rfl, .some h⟩

end Bounded

/-! ## Braces and the flag -/

theorem matchKey_set {linp ptr : Text} (h : matchKey linp "set" = some ptr) :
    matchKey linp "menuentry" = none ∧ matchKey linp "submenu" = none := by
  unfold matchKey at h
  split at h
  · rename_i hk
    obtain ⟨rest, rfl⟩ := List.isPrefixOf_iff_prefix.mp hk.1
    exact ⟨if_neg fun h => absurd h.1 (by simp), if_neg fun h => absurd h.1 (by simp)⟩
  · cases h

theorem getLast?_rdropWhile (linp : Text) (p : Char → Bool) :
    (linp.rdropWhile p).getLast? =
      if 0 < (linp.rdropWhile p).length then linp[(linp.rdropWhile p).length - 1]? else none := by
  split
  · rename_i hpos
    obtain ⟨t, ht⟩ := List.rdropWhile_prefix p linp
    rw [List.getLast?_eq_getElem?]
    conv_rhs => arg 1; rw [← ht]
    rw [List.getElem?_append_left (by omega)]
  · rename_i hpos
    rw [List.length_eq_zero_iff.mp (Nat.eq_zero_of_not_pos hpos), List.getLast?_nil]

/-- A line is what the code takes it for. -/
theorem grubLine_eq {line : Text} (h : SetPlain line) : grubLine line = outlineLine line := by
  unfold SetPlain at h
  dsimp only at h
  unfold grubLine outlineLine
  dsimp only
  rw [setLine_eq, setShort]
  cases hset : matchKey (line.dropWhile isSpace) "set" with
  | some ptr =>
    obtain ⟨hm, hs⟩ := matchKey_set hset
    dsimp only
    by_cases hsaved : savedEntry.isPrefixOf ptr = true
    · rw [if_pos hsaved, if_pos hsaved]
    · rw [if_neg hsaved, if_neg hsaved, hm, hs]
      exact if_neg fun hc => h ptr hset hsaved hc.2
  | none =>
    dsimp only
    rw [if_neg Bool.false_ne_true, getLast?_rdropWhile, Nat.sub_zero]
    cases matchKey (line.dropWhile isSpace) "menuentry" with
    | some ptr => rfl
    | none =>
      cases matchKey (line.dropWhile isSpace) "submenu" with
      | some ptr => rfl
      | none =>
        dsimp only
        by_cases hpos : 0 < ((line.dropWhile isSpace).rdropWhile isSpace).length
        · simp [hpos]
        · simp [hpos]

/-- The flag and the levels say which blocks are open. -/
structure Braced (m : Menu) (o : Outline) : Prop where
  entries : m.entries = o.entries
  ret : m.ret = o.ret
  blocks : o.blocks = (if m.inEntry then [Block.entry] else []) ++ m.opened.map .submenu

namespace Braced

variable {m : Menu} {o : Outline}

theorem start : Braced .start .start := ⟨rfl, rfl, rfl⟩

theorem enclosing (h : Braced m o) : o.enclosing = m.opened := by
  have hsub : (m.opened.map Block.submenu).filterMap Block.path = m.opened := by
    rw [List.filterMap_map]
    exact List.filterMap_some
  unfold Outline.enclosing
  rw [h.blocks, List.filterMap_append, hsub]
  cases m.inEntry <;> rfl

theorem path (h : Braced m o) (t : Text) : m.path t = o.path t := by
  unfold Menu.path Outline.path
  rw [h.enclosing]

theorem leaf (h : Braced m o) (hno : Block.entry ∉ o.blocks) : m.inEntry = false := by
  refine Bool.eq_false_iff.mpr fun hin => hno ?_
  rw [h.blocks, hin]
  exact List.mem_cons_self

/-- **One round** of the menu is one of the outline, unless a block starts within an entry. -/
theorem round (h : Braced m o) {line : Text} (hset : SetPlain line) (hleaf : Leaf o line) :
    Option.Rel Braced (menuRound m line) (outlineRound o line) := by
  unfold menuRound outlineRound
  rw [grubLine_eq hset]
  unfold Leaf at hleaf
  cases hkind : outlineLine line with
  | saved => exact .some ⟨h.entries, rfl, h.blocks⟩
  | menuentry ptr =>
    have hin := h.leaf (hleaf ptr (.inl hkind))
    have hblocks : Block.entry :: o.blocks = [Block.entry] ++ m.opened.map .submenu := by
      rw [h.blocks, hin]
      rfl
    dsimp only
    rw [h.enclosing]
    split
    · cases parseGrubTitle ptr with
      | none => exact .none
      | some t =>
        refine .some ⟨?_, h.ret, hblocks⟩
        dsimp only
        rw [h.entries, h.path]
    · exact .some ⟨h.entries, h.ret, hblocks⟩
  | submenu ptr =>
    have hin := h.leaf (hleaf ptr (.inr hkind))
    have hblocks : o.blocks = m.opened.map .submenu := by
      rw [h.blocks, hin]
      rfl
    dsimp only
    rw [h.enclosing]
    split
    · cases parseGrubTitle ptr with
      | none => exact .none
      | some t =>
        refine .some ⟨?_, h.ret, ?_⟩
        · dsimp only
          rw [h.entries, h.path]
        · dsimp only
          rw [hin, hblocks, h.path]
          rfl
    · refine .some ⟨h.entries, h.ret, ?_⟩
      dsimp only
      rw [hin, hblocks]
      rfl
  | close =>
    refine .some ?_
    cases hin : m.inEntry with
    | true =>
      refine ⟨h.entries, h.ret, ?_⟩
      dsimp only
      rw [h.blocks, hin]
      rfl
    | false =>
      refine ⟨h.entries, h.ret, ?_⟩
      dsimp only
      rw [h.blocks, hin]
      show (m.opened.map Block.submenu).tail = m.opened.tail.map Block.submenu
      exact List.map_tail.symm
  | other => exact .some h

end Braced

/-! ## The loop -/

/-- The loop stays in its arrays if and only if all lines that it comes to do. -/
theorem checkedLoop_isSome {c : CheckedState} {st : GrubState} {m : Menu} (hb : Bounded c st)
    (hs : Sim st m) (lines : List Line) :
    checkedLoop c lines ≠ none ↔ AllInBounds st lines := by
  induction lines generalizing c st m with
  | nil => exact iff_of_true (by simp [checkedLoop]) trivial
  | cons line lines ih =>
    rw [checkedLoop, AllInBounds]
    by_cases hin : InBounds line.text
    · obtain ⟨r, hr, hrel⟩ := hb.round hs hin
      have hmenu := hs.round line.text
      rw [hr, and_iff_right hin]
      generalize grubRound st line.text = g at hrel hmenu ⊢
      generalize menuRound m line.text = g' at hmenu
      cases hrel with
      | none => exact iff_of_true (by simp) fun st' h => by cases h
      | some hb' =>
        cases hmenu with
        | some hs' =>
          dsimp only
          rw [ih hb' hs']
          exact ⟨fun h st'' he => by cases he; exact h, fun h => h _ rfl⟩
    · have hnone : checkedRound c line.text = none := by
        unfold checkedRound
        cases hl : checkedLine line.text with
        | none => rfl
        | some k => exact absurd (inBounds_of_checkedLine line.fits (by simp [hl])) hin
      rw [hnone]
      exact iff_of_false (fun h => h rfl) fun h => hin h.1

/-- A loop that stays in its arrays gives the entries of the configuration. -/
theorem checkedLoop_eq {c : CheckedState} {st : GrubState} {m : Menu} {o : Outline}
    (hb : Bounded c st) (hs : Sim st m) (hm : Braced m o) (lines : List Line)
    (hin : AllInBounds st lines) (htidy : Tidy o lines) :
    checkedLoop c lines = some ((outlineOf o lines).map (List.map listed)) := by
  induction lines generalizing c st m o with
  | nil =>
    rw [checkedLoop, outlineOf, hb.ret, hs.ret, hm.ret, hb.opts, hs.opts, hm.entries]
    split <;> rfl
  | cons line lines ih =>
    obtain ⟨r, hr, hrel⟩ := hb.round hs hin.1
    have hmenu := hs.round line.text
    have houtline := hm.round htidy.1 htidy.2.1
    have hin' := hin.2
    have htidy' := htidy.2.2
    rw [checkedLoop, outlineOf, hr]
    generalize grubRound st line.text = g at hrel hmenu hin'
    generalize menuRound m line.text = g' at hmenu houtline
    generalize outlineRound o line.text = g'' at houtline htidy' ⊢
    cases hrel with
    | none =>
      cases hmenu with
      | none =>
        cases houtline with
        | none => rfl
    | some hb' =>
      cases hmenu with
      | some hs' =>
        cases houtline with
        | some hm' => exact ih hb' hs' hm' (hin' _ rfl) (htidy' _ rfl)

/-- A submenu and an entry in it. -/
example : checkedLoop .start
    [⟨"set default=\"$\x7bsaved_entry\x7d\"".toList, by decide, by decide⟩,
      ⟨"submenu 'a' \x7b".toList, by decide, by decide⟩,
      ⟨"  menuentry \"b\" \x7b".toList, by decide, by decide⟩] =
    some (.ok ["a".toList, "a >> b".toList]) := by decide +kernel

/-- An empty line. -/
def Line.empty : Line := ⟨[], by decide, by decide⟩

end Kdm.Boot
