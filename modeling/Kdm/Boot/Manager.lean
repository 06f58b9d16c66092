import Kdm.Backend.Text
import Mathlib.Data.List.DropRight

/-!
# Boot managers

`bootman.c`: the options that a boot manager offers, and the selection of one of them.  A line is
what one call of `fGets` delivers.  The byte in front of an empty line, which the code looks at, is
taken to be neither a blank nor a brace.  Memory does not run out here.
-/

namespace Kdm.Boot

/-- A C string, a character for a byte. -/
abbrev Text := List Char

/-- What the functions return when it is not `BO_OK`. -/
inductive Bo where
  | noMan
  | noEnt
  | io
  deriving DecidableEq, Repr

/-- A configuration file that is there. -/
structure CfgFile where
  mtime : Int
  readable : Bool
  lines : List Text
  deriving DecidableEq, Repr

/-- The values of `grubConfig`. -/
inductive Cfg where
  /-- `/boot/grub2/grub.cfg` -/
  | grub2
  /-- `/boot/grub/grub.cfg` -/
  | grub
  /-- `/boot/burg/burg.cfg` -/
  | burg
  deriving DecidableEq, Repr

/-- A run of `lilo -w -v -q`. -/
structure LiloRun where
  lines : List Text
  fails : Bool
  deriving DecidableEq, Repr

/-- What the functions find on the machine. -/
structure BootSystem where
  locate : String → Bool
  /-- `GRUB_MENU` -/
  menu : Option CfgFile
  cfg : Cfg → Option CfgFile
  /-- `none` when the program cannot be started -/
  lilo : Option LiloRun

/-- The static variables: the programs that were located, and the configuration in use. -/
structure Statics where
  grubSetDefault : Bool
  grub : Bool
  grubReboot : Bool
  lilo : Bool
  grubConfig : Option Cfg
  deriving DecidableEq, Repr

def Statics.start : Statics := ⟨false, false, false, false, none⟩

/-- What the functions write into a shutdown record. -/
structure Selection where
  osname : Option Text
  osindex : Int
  bmstamp : Int
  deriving DecidableEq, Repr

/-- Options, the default one and the current one. -/
abbrev Options := List Text × Int × Int

def mTime (f : Option CfgFile) : Int := f.elim (-1) CfgFile.mtime

def openLines (f : Option CfgFile) : Except Bo (List Text) :=
  match f with
  | none => .error .noMan
  | some f => if f.readable then .ok f.lines else .error .io

def SEP : Text := [' ', '>', '>', ' ']

/-- `match`: the text behind the key, if there is one. -/
def matchKey (buf : Text) (key : String) : Option Text :=
  if key.toList.isPrefixOf buf ∧ (buf[key.toList.length]?.map isSpace).getD false then
    match (buf.drop (key.toList.length + 1)).dropWhile isSpace with
    | [] => none
    | ptr => some ptr
  else none

/-! ## Grub -/

/-- The loop of `getGrub`: the options and the default one. -/
def grubTitles : List Text × Int → List Text → List Text × Int
  | r, [] => r
  | (opts, dflt), line :: lines =>
    let linp := line.dropWhile isSpace
    match matchKey linp "default" with
    | some ptr => grubTitles (opts, atoi ptr) lines
    | none =>
      match matchKey linp "title" with
      | some ptr => grubTitles (opts ++ [ptr.rdropWhile isSpace], dflt) lines
      | none => grubTitles (opts, dflt) lines

def getGrub (sys : BootSystem) (v : Statics) : Except Bo Options × Statics :=
  let v :=
    if v.grubSetDefault ∨ v.grub then v
    else if sys.locate "grub-set-default" then { v with grubSetDefault := true }
    else { v with grub := sys.locate "grub" }
  if ¬ (v.grubSetDefault ∨ v.grub) then (.error .noMan, v)
  else
    ((openLines sys.menu).map fun lines =>
      let (opts, dflt) := grubTitles ([], 0) lines
      (opts, dflt, -1), v)

/-- The loop of `setGrub` from the `i`-th title on. -/
def grubIndex (opt : Text) : Nat → List Text → Option Nat
  | _, [] => none
  | i, line :: lines =>
    match matchKey line "title" with
    | some ptr => if ptr = opt then some i else grubIndex opt (i + 1) lines
    | none => grubIndex opt i lines

def setGrub (sys : BootSystem) (opt : Text) (sd : Selection) : Except Bo Selection :=
  match openLines sys.menu with
  | .error e => .error e
  | .ok lines =>
    match grubIndex opt 0 lines with
    | some i => .ok { sd with osname := some opt, osindex := i, bmstamp := mTime sys.menu }
    | none => .error .noEnt

/-! ## Grub2 and Burg -/

def GRUB2_MAX_MENU_LEVEL : Nat := 5

/-- The text in double quotes, up to the closing one. -/
def quotedTitle : Text → Option Text
  | [] => none
  | '"' :: _ => some []
  | ['\\'] => none
  | '\\' :: c :: s =>
    (quotedTitle s).map fun t => if c = '$' ∨ c = '"' ∨ c = '\\' then c :: t else '\\' :: c :: t
  | c :: s => (quotedTitle s).map (c :: ·)

/-- The text up to a blank. -/
def bareTitle : Text → Option Text
  | [] => none
  | ['\\'] => none
  | '\\' :: c :: s => (bareTitle s).map (c :: ·)
  | c :: s => if isSpace c then some [] else (bareTitle s).map (c :: ·)

def parseGrubTitle (title : Text) : Option Text :=
  match title with
  | '\'' :: s => if '\'' ∈ s then some (s.takeWhile (· ≠ '\'')) else none
  | '"' :: s => quotedTitle s
  | s => bareTitle s

/-- The variables of `getGrub2OrBurg`. -/
structure GrubState where
  opts : List Text
  menuLvl : Nat
  inEntry : Bool
  menus : Nat → Nat
  ret : Bool

def GrubState.start : GrubState := ⟨[], 0, false, fun _ => 0, false⟩

def buildBootList (opts : List Text) (title : Text) (menuLvl : Nat) (menus : Nat → Nat) :
    Option (List Text) :=
  (parseGrubTitle title).map fun title =>
    opts ++ [if 0 < menuLvl then opts.getD (menus (menuLvl - 1)) [] ++ SEP ++ title else title]

/-- `"default=\"${saved_entry}\""` -/
def savedEntry : Text := "default=\"$\x7bsaved_entry\x7d\"".toList

/-- The length of a line without the blanks at its end, and whether the line uses the saved entry;
`match` shortens the length. -/
def setLine (linp : Text) : Nat × Bool :=
  let len := (linp.rdropWhile isSpace).length
  match matchKey linp "set" with
  | some ptr => (len - (linp.length - ptr.length), savedEntry.isPrefixOf ptr)
  | none => (len, false)

/-- What a line is for `getGrub2OrBurg`. -/
inductive GrubLine where
  | saved
  | menuentry (title : Text)
  | submenu (title : Text)
  | close
  | other
  deriving DecidableEq, Repr

def grubLine (line : Text) : GrubLine :=
  let linp := line.dropWhile isSpace
  let (len, saved) := setLine linp
  if saved then .saved
  else
    match matchKey linp "menuentry" with
    | some ptr => .menuentry ptr
    | none =>
      match matchKey linp "submenu" with
      | some ptr => .submenu ptr
      | none => if 0 < len ∧ linp[len - 1]? = some '\x7d' then .close else .other

/-- One round of the loop; `none` for a title that is not ended. -/
def grubRound (st : GrubState) (line : Text) : Option GrubState :=
  match grubLine line with
  | .saved => some { st with ret := true }
  | .menuentry ptr =>
    if st.menuLvl ≤ GRUB2_MAX_MENU_LEVEL then
      (buildBootList st.opts ptr st.menuLvl st.menus).map fun opts =>
        { st with opts := opts, inEntry := true }
    else some { st with inEntry := true }
  | .submenu ptr =>
    if st.menuLvl < GRUB2_MAX_MENU_LEVEL then
      let menus := Function.update st.menus st.menuLvl st.opts.length
      (buildBootList st.opts ptr st.menuLvl menus).map fun opts =>
        { st with opts := opts, menus := menus, menuLvl := st.menuLvl + 1 }
    else some { st with menuLvl := st.menuLvl + 1 }
  | .close =>
    if st.inEntry then some { st with inEntry := false }
    else some { st with menuLvl := st.menuLvl - 1 }
  | .other => some st

/-- The loop of `getGrub2OrBurg`. -/
def grub2Options (lines : List Text) : Except Bo (List Text) :=
  match lines.foldlM grubRound .start with
  | none => .error .io
  | some st => if st.ret then .ok st.opts else .error .noMan

def getGrub2OrBurg (sys : BootSystem) (grubConfig : Cfg) (grubRebootExec : String) (v : Statics) :
    Except Bo Options × Statics :=
  let v := { v with grubConfig := some grubConfig,
                    grubReboot := v.grubReboot || sys.locate grubRebootExec }
  if ¬ v.grubReboot then (.error .noMan, v)
  else
    (do
      let lines ← openLines (sys.cfg grubConfig)
      let opts ← grub2Options lines
      .ok (opts, -1, -1), v)

def getGrub2 (sys : BootSystem) (v : Statics) : Except Bo Options × Statics :=
  if (sys.cfg .grub2).isSome then getGrub2OrBurg sys .grub2 "grub2-reboot" v
  else getGrub2OrBurg sys .grub "grub-reboot" v

def getBurg (sys : BootSystem) (v : Statics) : Except Bo Options × Statics :=
  getGrub2OrBurg sys .burg "burg-reboot" v

/-- `replaceInString`, for a text that is not empty. -/
def replaceInString (str before after : Text) : Text :=
  match str with
  | [] => []
  | c :: s =>
    if before.isPrefixOf (c :: s) then after ++ replaceInString (s.drop (before.length - 1)) before after
    else c :: replaceInString s before after
  termination_by str.length
  decreasing_by
    all_goals simp only [List.length_drop, List.length_cons]; omega

/-- The file that `grubConfig` names. -/
def BootSystem.current (sys : BootSystem) (v : Statics) : Option CfgFile :=
  v.grubConfig.elim none sys.cfg

def setGrub2 (sys : BootSystem) (opt : Text) (sd : Selection) (v : Statics) :
    Except Bo Selection × Statics :=
  let (r, v) := getGrub2 sys v
  match r with
  | .error e => (.error e, v)
  | .ok (opts, _, _) =>
    if opt ∈ opts then
      (.ok { sd with osname := some (replaceInString opt SEP ['>']),
                     bmstamp := mTime (sys.current v) }, v)
    else (.error .noEnt, v)

/-! ## Lilo -/

/-- `Ldeflin` -/
def deflin : Text := "  Default boot command line:".toList

/-- The lines up to the list of images: the default command line, and the lines behind. -/
def liloHead (next : Text) : List Text → Option (Text × List Text)
  | [] => none
  | buf :: lines =>
    if "Images:".toList.isPrefixOf buf then some (next, lines)
    else
      liloHead (if deflin.isPrefixOf buf then (buf.drop (deflin.length + 2)).take
        (buf.length - deflin.length - 3) else next) lines

/-- The label on a line of the list, and whether it is the default one. -/
def liloLabel (buf : Text) : Option (Text × Bool) :=
  if buf[0]? = some ' ' ∧ buf[1]? = some ' ' ∧ buf[2]? ≠ some ' ' then
    let star := buf.getLast? = some '*'
    let l := (if star then buf.dropLast else buf).rdropWhile (· = ' ')
    -- a label without a character is taken as the rest of the line
    some (if 2 ≤ l.length then l.drop 2 else buf.drop 2, star)
  else none

/-- The loop over the images, from the `cdef`-th on. -/
def liloImages (next : Text) : Nat → Options → List Text → Options
  | _, r, [] => r
  | cdef, (opts, dflt, curr), buf :: lines =>
    match liloLabel buf with
    | none => liloImages next cdef (opts, dflt, curr) lines
    | some (label, star) =>
      liloImages next (cdef + 1) (opts ++ [label], if star then cdef else dflt,
        if label = next then cdef else curr) lines

def getLilo (sys : BootSystem) (v : Statics) : Except Bo Options × Statics :=
  let v := { v with lilo := v.lilo || sys.locate "lilo" }
  if ¬ v.lilo then (.error .noMan, v)
  else
    match sys.lilo with
    | none => (.error .io, v)
    | some run =>
      if run.fails then (.error .io, v)
      else
        match liloHead [] run.lines with
        | none => (.error .noMan, v)
        | some (next, lines) => (.ok (liloImages next 0 ([], 0, -1) lines), v)

def setLilo (sys : BootSystem) (opt : Text) (sd : Selection) (v : Statics) :
    Except Bo Selection × Statics :=
  let (r, v) := getLilo sys v
  match r with
  | .error e => (.error e, v)
  | .ok (opts, _, _) =>
    if opt = [] then (.ok { sd with osname := none }, v)
    else if opt ∈ opts then (.ok { sd with osname := some opt }, v)
    else (.error .noEnt, v)

/-! ## The table of boot managers -/

/-- `bootManager`. -/
inductive BootManager where
  | none
  | grub
  | grub2
  | burg
  | lilo
  deriving DecidableEq, Repr

def getBootOptions (m : BootManager) (sys : BootSystem) (v : Statics) : Except Bo Options × Statics :=
  match m with
  | .none => (.error .noMan, v)
  | .grub => getGrub sys v
  | .grub2 => getGrub2 sys v
  | .burg => getBurg sys v
  | .lilo => getLilo sys v

def setBootOption (m : BootManager) (sys : BootSystem) (opt : Option Text) (sd : Selection)
    (v : Statics) : Except Bo Selection × Statics :=
  let sd := { sd with osname := none }
  match opt with
  | none => (.ok sd, v)
  | some opt =>
    match m with
    | .none => (.error .noMan, v)
    | .grub => (setGrub sys opt sd, v)
    | .grub2 => setGrub2 sys opt sd v
    | .burg => setGrub2 sys opt sd v
    | .lilo => setLilo sys opt sd v

/-- What is run to select an entry. -/
inductive Command where
  | grubSetDefault (index : Int)
  | savedefault (index : Int)
  | grubReboot (osname : Text)
  | liloOnce (osname : Text)
  deriving DecidableEq, Repr

def commitGrub (sys : BootSystem) (sd : Selection) (osname : Text) (v : Statics) : Option Command :=
  let run := fun sd : Selection =>
    if v.grubSetDefault then Command.grubSetDefault sd.osindex else .savedefault sd.osindex
  if sd.bmstamp ≠ mTime sys.menu then
    match setGrub sys osname sd with
    | .ok sd => some (run sd)
    | .error _ => none
  else some (run sd)

def commitGrub2 (sys : BootSystem) (sd : Selection) (osname : Text) (v : Statics) : Option Command :=
  if sd.bmstamp ≠ mTime (sys.current v) then
    match setGrub2 sys osname sd v with
    | (.ok sd, v) => if v.grubReboot then sd.osname.map .grubReboot else none
    | (.error _, _) => none
  else if v.grubReboot then some (.grubReboot osname) else none

/-- `commitBootOption`. -/
def commitBootOption (m : BootManager) (sys : BootSystem) (sd : Selection) (v : Statics) :
    Option Command :=
  match sd.osname with
  | none => none
  | some osname =>
    match m with
    | .none => none
    | .grub => commitGrub sys sd osname v
    | .grub2 => commitGrub2 sys sd osname v
    | .burg => commitGrub2 sys sd osname v
    | .lilo => some (.liloOnce osname)

end Kdm.Boot
