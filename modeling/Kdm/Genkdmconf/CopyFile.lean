import Kdm.Lib.Fresh

/-!
# Copies of the files of an old configuration

`copyFile` of `genkdmconf.c`, called for one entry of the old configuration after another, when the
new configuration is written to its place, that is, without a destination directory of its own.

* `Files` — the file system, by location; there are no links, and a directory is made when a file needs
  it.
* `displace`, `writeCopy`, `copyFile` — the functions; `none` is `exit(1)`.
* `run` — the calls one after the other, with what each one read and returned.
* `Preserved` — what a migration should keep; `Careful` — the calls that keep it.
-/

namespace Kdm.Genkdmconf

abbrev Name := List Char

abbrev Path := List Char

abbrev Bytes := List UInt8

/-- The names from the root. -/
abbrev Loc := List Name

/-- A file, with what `stat` tells of it. -/
structure Inode where
  data : Bytes
  mode : Nat
  mtime : Nat
  deriving DecidableEq

abbrev Files := Loc → Option Inode

/-- What the program was built and started with, and what the system allows. -/
structure Env where
  KDMCONF : Path
  oldkde : Option Path
  oldxdm : Option Path
  no_backup : Bool
  cwd : Loc
  now : Nat
  mayOpen : Path → Bool
  mayCreate : Path → Bool

/-! ## The file system -/

/-- One name of a path. -/
def enter (l : Loc) (n : Name) : Loc :=
  if n = [] ∨ n = ['.'] then l else if n = ['.', '.'] then l.dropLast else l ++ [n]

/-- Where a path leads. -/
def Env.resolve (env : Env) (fn : Path) : Loc :=
  (fn.splitOn '/').foldl enter (if fn.head? = some '/' then [] else env.cwd)

/-- A path that ends so names a directory. -/
def namesDir (fn : Path) : Bool :=
  match (fn.splitOn '/').getLast? with
  | none => true
  | some n => n = [] || n = ['.'] || n = ['.', '.']

/-- `readFile`, and the `stat` of the same file. -/
def readFile (env : Env) (files : Files) (fn : Path) : Option Inode :=
  if namesDir fn || ! env.mayOpen fn then none else files (env.resolve fn)

def Files.rename (files : Files) (old new : Loc) : Files :=
  fun l => if l = new then files old else if l = old then none else files l

def Files.unlink (files : Files) (old : Loc) : Files := fun l => if l = old then none else files l

def Files.create (files : Files) (l : Loc) (file : Inode) : Files :=
  fun l' => if l' = l then some file else files l'

def bak (fn : Path) : Path := fn ++ ".bak".toList

def displace (env : Env) (fn : Path) (files : Files) : Files :=
  if files (env.resolve fn) = none then files
  else if env.no_backup then files.unlink (env.resolve fn)
  else files.rename (env.resolve fn) (env.resolve (bak fn))

/-- `writeCopy`, for a name below `KDMCONF`; without a stamp the file is of now. -/
def writeCopy (env : Env) (nname : Path) (mode stamp : Nat) (buf : Bytes) (files : Files) :
    Option Files :=
  if env.mayCreate nname then
    some ((displace env nname files).create (env.resolve nname)
      ⟨buf, mode, if stamp = 0 then env.now else stamp⟩)
  else none

/-! ## One file -/

/-- A call of `copyFile`; `proc` returns the edited file, or nothing when it has left it as it was. -/
structure Call where
  value : Path
  mode : Nat
  proc : Bytes → Option Bytes

/-- The variables of the program, and the files. -/
structure Store where
  files : Files
  cfmap : List (Path × Path)
  aflist : List Path
  eflist : List Path
  cflist : List Path
  lflist : List Path

/-- The old files of which there is a copy, or that are used as they are. -/
def Store.copied (s : Store) : List Path := s.eflist ++ s.cflist ++ s.lflist

def inList (sp : List Path) (s : Path) : Bool := sp.contains s

def addStr (sp : List Path) (s : Path) : List Path := if inList sp s then sp else sp ++ [s]

def getMapping (sm : List (Path × Path)) (k : Path) : Option Path := sm.lookup k

def addMapping (sm : List (Path × Path)) (k v : Path) : List (Path × Path) :=
  if (getMapping sm k).isSome then sm else sm ++ [(k, v)]

def inNewDir (env : Env) (name : Path) : Bool := (env.KDMCONF ++ ['/']).isPrefixOf name

/-- The part of a path of KDE's configuration that is kept. -/
def kdeTail (env : Env) (value : Path) : Option Path :=
  env.oldkde.bind fun oldkde =>
    if oldkde.isPrefixOf value then
      let p := value.drop oldkde.length
      if "/kdm/".toList.isPrefixOf p then some (p.drop 4) else if p.head? = some '/' then some p else none
    else none

def xdmTail (env : Env) (value : Path) : Option Path :=
  env.oldxdm.bind fun oldxdm =>
    if oldxdm.isPrefixOf value ∧ (value.drop oldxdm.length).head? = some '/' then
      some (value.drop oldxdm.length)
    else none

/-- `strrchr(value, '/')`. -/
def lastSlash (value : Path) : Option Path :=
  if '/' ∈ value then some ('/' :: (value.reverse.takeWhile (· ≠ '/')).reverse) else none

def tptr (env : Env) (value : Path) : Option Path :=
  (kdeTail env value).or ((xdmTail env value).or (lastSlash value))

/-- `KDMCONF "%s-%d"`. -/
def numbered (env : Env) (tp : Path) (cnt : Nat) : Path :=
  env.KDMCONF ++ tp ++ '-' :: Nat.toDigits 10 cnt

/-- The name of the copy: the first one that was not yet added. -/
def newName (env : Env) (aflist : List Path) (tp : Path) : Option Path :=
  if inList aflist (env.KDMCONF ++ tp) then Fresh.seek (numbered env tp) aflist (aflist.length + 1) 2
  else some (env.KDMCONF ++ tp)

/-- The file was read: it is copied, edited or linked. -/
def fill (env : Env) (c : Call) (nname : Path) (file : Inode) (s : Store) : Option Store :=
  match c.proc file.data with
  | some data =>
    (writeCopy env nname c.mode 0 data s.files).map fun files =>
      { s with files := files, eflist := addStr s.eflist c.value }
  | none =>
    if c.value = nname then some { s with lflist := addStr s.lflist nname }
    else
      (writeCopy env nname c.mode file.mtime file.data s.files).map fun files =>
        { s with files := files, cflist := addStr s.cflist c.value }

/-- The old file goes when it was below `KDMCONF`, and the new one is added. -/
def finish (env : Env) (c : Call) (nname : Path) (s : Store) : Store :=
  { s with
    files := if c.value ≠ nname ∧ inNewDir env c.value then displace env c.value s.files else s.files
    aflist := addStr s.aflist nname }

/-- What a call returns, and the value that it leaves in the entry. -/
structure Reply where
  rt : Bool
  value : Path

def copyFile (env : Env) (c : Call) (s : Store) : Option (Store × Reply) :=
  if c.value = [] then some (s, ⟨true, c.value⟩)
  else
    match getMapping s.cfmap c.value with
    | some nname => some (s, ⟨inList s.aflist nname, nname⟩)
    | none =>
      match tptr env c.value with
      | none => some (s, ⟨false, c.value⟩)
      | some tp =>
        match newName env s.aflist tp with
        | none => none
        | some nname =>
          let s := { s with cfmap := addMapping s.cfmap c.value nname }
          match readFile env s.files c.value with
          | none => some (s, ⟨false, nname⟩)
          | some file => (fill env c nname file s).map fun s => (finish env c nname s, ⟨true, nname⟩)

/-! ## All files -/

/-- A call with what it read, if it got so far, and what it returned. -/
structure Done where
  call : Call
  read : Option (Option Inode)
  reply : Reply

/-- What a call reads. -/
def readOf (env : Env) (c : Call) (s : Store) : Option (Option Inode) :=
  if c.value = [] ∨ (getMapping s.cfmap c.value).isSome ∨ tptr env c.value = none then none
  else some (readFile env s.files c.value)

def run (env : Env) : List Call → Store → Option (Store × List Done)
  | [], s => some (s, [])
  | c :: cs, s =>
    match copyFile env c s with
    | none => none
    | some (s', reply) =>
      (run env cs s').map fun r => (r.1, ⟨c, readOf env c s, reply⟩ :: r.2)

/-- Nothing was migrated yet. -/
def Store.start (files : Files) : Store := ⟨files, [], [], [], [], []⟩

/-! ## The property -/

/-- The source was migrated. -/
def Done.ok (d : Done) : Prop := d.call.value ≠ [] ∧ d.reply.rt = true

instance Done.decidableOk (d : Done) : Decidable d.ok := by
  unfold Done.ok
  infer_instance

/-- The contents as `proc` leaves them. -/
def Call.edited (c : Call) (data : Bytes) : Bytes := (c.proc data).getD data

/-- **The property**: sources and targets belong together, each target has what its source had before,
and what was read is what was there before. -/
structure Preserved (env : Env) (before : Files) (log : List Done) (after : Files) : Prop where
  targets : ∀ d ∈ log, ∀ e ∈ log, d.ok → e.ok →
    (d.call.value = e.call.value ↔ d.reply.value = e.reply.value)
  contents : ∀ d ∈ log, d.ok → ∃ e ∈ log, e.ok ∧ e.call.value = d.call.value ∧
    ∃ file, before (env.resolve d.call.value) = some file ∧
      (after (env.resolve d.reply.value)).map Inode.data = some (e.call.edited file.data)
  reads : ∀ d ∈ log, ∀ file, d.read = some file → file = readFile env before d.call.value

/-! ## The condition -/

/-- The locations of a file that is moved away. -/
def moved (env : Env) (fn : Path) : List Loc :=
  env.resolve fn :: if env.no_backup then [] else [env.resolve (bak fn)]

/-- The locations that a call changes other than its target: the files that are moved away. -/
def movedBy (env : Env) (c : Call) (nname : Path) (s : Store) : List Loc :=
  (if s.files (env.resolve nname) = none then [] else moved env nname) ++
    if c.value ≠ nname ∧ inNewDir env c.value then moved env c.value else []

/-- The file is left where it is. -/
def linked (c : Call) (nname : Path) (file : Inode) : Prop :=
  c.proc file.data = none ∧ c.value = nname

instance decidableLinked (c : Call) (nname : Path) (file : Inode) : Decidable (linked c nname file) := by
  unfold linked
  infer_instance

/-- The locations that a call changes. -/
def touched (env : Env) (c : Call) (s : Store) : List Loc :=
  if c.value = [] ∨ (getMapping s.cfmap c.value).isSome then []
  else
    match (tptr env c.value).bind (newName env s.aflist), readFile env s.files c.value with
    | some nname, some file =>
      if linked c nname file then [] else env.resolve nname :: movedBy env c nname s
    | _, _ => []

/-- A file is copied at a time when nothing was done to it, to a place where no copy is, and what is
moved away or overwritten on the way is no copy, either. -/
def SafeCopy (env : Env) (c : Call) (s : Store) (before : List Loc) (nname : Path) : Prop :=
  env.resolve c.value ∉ before ∧ (∀ t ∈ s.aflist, env.resolve t ∉ touched env c s) ∧
    (c.value ≠ nname ∧ inNewDir env c.value → env.resolve nname ∉ moved env c.value)

instance decidableSafeCopy (env : Env) (c : Call) (s : Store) (before : List Loc) (nname : Path) :
    Decidable (SafeCopy env c s before nname) := by
  unfold SafeCopy
  infer_instance

/-- A file with a mapping was copied, if its target was; one without is copied safely. -/
def Careful1 (env : Env) (c : Call) (s : Store) (before : List Loc) : Prop :=
  c.value ≠ [] →
    (∀ nname ∈ getMapping s.cfmap c.value, inList s.aflist nname → inList s.copied c.value) ∧
      (getMapping s.cfmap c.value = none →
        ∀ nname ∈ (tptr env c.value).bind (newName env s.aflist), SafeCopy env c s before nname)

instance decidableCareful1 (env : Env) (c : Call) (s : Store) (before : List Loc) :
    Decidable (Careful1 env c s before) := by
  unfold Careful1
  infer_instance

/-- Every call is such a one; `before` are the locations that were changed by the calls before. -/
def Careful (env : Env) : List Call → Store → List Loc → Prop
  | [], _, _ => True
  | c :: cs, s, before =>
    Careful1 env c s before ∧
      ∀ r ∈ copyFile env c s, Careful env cs r.1 (before ++ touched env c s)

instance decidableCareful (env : Env) :
    ∀ (cs : List Call) (s : Store) (before : List Loc), Decidable (Careful env cs s before)
  | [], _, _ => inferInstanceAs (Decidable True)
  | c :: cs, s, before =>
    haveI (r : Store × Reply) := decidableCareful env cs r.1 (before ++ touched env c s)
    inferInstanceAs (Decidable (Careful1 env c s before ∧
      ∀ r ∈ copyFile env c s, Careful env cs r.1 (before ++ touched env c s)))

end Kdm.Genkdmconf
