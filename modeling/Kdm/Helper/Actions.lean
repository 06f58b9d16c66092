import Kdm.Lib.Files

/-!
# The privileged helper of the control module

`kcm/helper.cpp`: the actions that run as root, with the names and the paths that the caller gives.
What `KConfig` and `KStandardDirs` answer are parameters.  The helper runs in the root directory and
with the usual mask for new files.
-/

namespace Kdm.Helper

open Files

/-! ## Paths -/

/-- The names of an absolute path without `.` and `..`, as `QDir::cleanPath` resolves them. -/
def cleanNames (path : Path) : List Name :=
  (path.splitOn '/').foldl (fun names n =>
    if n = [] ∨ n = ['.'] then names
    else if n = ['.', '.'] then names.dropLast
    else names ++ [n]) []

def render (names : List Name) : Path := names.flatMap ('/' :: ·)

/-- The absolute path with these names. -/
def absolutePath (names : List Name) : Path := if names = [] then ['/'] else render names

/-- `QFileInfo::absoluteFilePath`. -/
def absoluteFilePath (path : Path) : Path :=
  absolutePath (cleanNames path) ++
    if path.getLast? = some '/' ∧ cleanNames path ≠ [] then ['/'] else []

/-- `QFileInfo::absoluteDir`. -/
def absoluteDir (path : Path) : Path :=
  absolutePath (if path.getLast? = some '/' then cleanNames path else (cleanNames path).dropLast)

/-- `QFileInfo::fileName`. -/
def fileName (path : Path) : Name := (path.reverse.takeWhile (· ≠ '/')).reverse

/-- `QDir::filePath` for a name. -/
def filePath (dir : Path) (n : Name) : Path := dir.rdropWhile (· = '/') ++ '/' :: n

/-! ## Files and directories -/

/-- The file system, and what was written to files, latest first. -/
structure Disk where
  fs : Tree
  written : List (Loc × List UInt8)

/-- `QDir::exists`: the location of the directory. -/
def dirExists (fs : Tree) (path : Path) : Option Loc :=
  match fs.stat (if path = [] then ['/'] else path) with
  | some (l, .dir _) => some l
  | _ => none

/-- The path of a `QDir`. -/
def dirPath (path : Path) : Path :=
  if path.getLast? = some '/' ∧ 1 < path.length then path.dropLast else path

/-- `QDir::operator==`: the paths are compared, and the locations if both directories exist. -/
def sameDir (fs : Tree) (dir dir' : Path) : Bool :=
  dirPath dir = dirPath dir' ∨ (dirExists fs dir).isSome ∧ dirExists fs dir = dirExists fs dir'

/-- `QDir::entryInfoList` for all entries: hidden files and broken links are left out.  With a name
stands whether it is a directory. -/
def entryInfoList (fs : Tree) (dir : Path) : List (Name × Bool) :=
  match dirExists fs dir with
  | none => []
  | some l =>
    (fs.list l).filterMap fun n =>
      if n.head? = some '.' then none
      else (fs.stat (filePath dir n)).map fun p => (n, p.2.isDir)

def content (fs : Tree) (l : Loc) : List UInt8 :=
  match fs.node l with
  | some (.file _ c) => c
  | _ => []

def secureCopy (d : Disk) (src dst : Path) : Bool × Disk :=
  match d.fs.stat src with
  | some (l, .file perm _) =>
    if perm.readOther = false then (false, d)
    else
      match d.fs.creat dst with
      | none => (false, d)
      | some (l', fs) =>
        -- the file that is emptied may be the one that is read
        (true, ⟨fs.set l' (some (.file ⟨true, false⟩ (content fs l))),
          (l', content fs l) :: d.written⟩)
  | _ => (false, d)

/-- `QDir::mkpath` from a directory on. -/
def mkpath (fs : Tree) (done : List Name) : List Name → Bool × Tree
  | [] => (true, fs)
  | n :: names =>
    let chunk := render (done ++ [n])
    match fs.stat chunk with
    | some (_, .dir _) => mkpath fs (done ++ [n]) names
    | some _ => (false, fs)
    | none =>
      match fs.mkdir chunk ⟨true, true⟩ with
      | some fs => mkpath fs (done ++ [n]) names
      | none => (false, fs)

/-- The names that `mkpath` goes along; a relative path is taken from the directory itself. -/
def mkpathNames (path : Path) : List Name :=
  cleanNames (if path.head? = some '/' then path else path ++ '/' :: path)

def createDir (fs : Tree) (path : Path) : Bool × Tree :=
  if (dirExists fs path).isSome then (true, fs) else mkpath fs [] (mkpathNames path)

/-- `removeDirTree`; what is `fuel` levels down has no path that is short enough. -/
def removeDirTree : Nat → Tree → Path → Bool × Tree
  | 0, fs, _ => (false, fs)
  | fuel + 1, fs, rootDir =>
    let fs := (entryInfoList fs rootDir).foldl (fun fs entry =>
      if entry.2 then (removeDirTree fuel fs (filePath rootDir entry.1)).2
      else (fs.unlink (filePath rootDir entry.1)).getD fs) fs
    match fs.rmdir rootDir with
    | some fs => (true, fs)
    | none => (false, fs)

def installDirTree : Nat → Disk → Path → Path → Bool × Disk
  | 0, d, _, _ => (false, d)
  | fuel + 1, d, srcRootDir, dstRootDir =>
    match d.fs.mkdir dstRootDir ⟨true, true⟩ with
    | none => (false, d)
    | some fs =>
      (entryInfoList fs srcRootDir).foldl (fun r entry =>
        let srcFilePath := filePath srcRootDir entry.1
        let dstFilePath := filePath (absolutePath (cleanNames dstRootDir)) entry.1
        let r' :=
          if entry.2 then installDirTree fuel r.2 srcFilePath dstFilePath
          else secureCopy r.2 srcFilePath dstFilePath
        (r.1 && r'.1, r'.2)) (true, { d with fs := fs })

/-! ## Actions -/

/-- The directory of the themes: an absolute path that ends with a slash. -/
structure ThemesDir where
  names : List Name
  proper : ∀ n ∈ names, Proper n

def ThemesDir.path (dir : ThemesDir) : Path := render dir.names ++ ['/']

/-- What the configuration says. -/
structure Settings where
  kdmrc : Path
  backgroundrc : Path
  facesDir : Path
  themesDir : ThemesDir

/-- `".face.icon"` -/
def faceIcon (user : Name) : Name := user ++ ".face.icon".toList

def removeFace (fs : Tree) (facesDir : Path) (user : Name) : Bool × Tree :=
  if '/' ∈ user then (false, fs)
  else
    match fs.unlink (facesDir ++ faceIcon user) with
    | some fs => (true, fs)
    | none => (false, fs)

def installFace (d : Disk) (facesDir : Path) (user : Name) (sourceFile : Path) : Bool × Disk :=
  if '/' ∈ user then (false, d) else secureCopy d sourceFile (facesDir ++ faceIcon user)

/-- The loop of `removeThemes`: the themes that were removed are blanked. -/
def removeEach (themesDir : Path) : Tree → List Path → Bool × List Path × Tree
  | fs, [] => (true, [], fs)
  | fs, theme :: themes =>
    if sameDir fs (absoluteDir theme) themesDir = false ∨ (fs.stat theme).isNone then
      let r := removeEach themesDir fs themes
      (false, theme :: r.2.1, r.2.2)
    else
      let r' := removeDirTree PATH_MAX fs (absoluteFilePath theme)
      let r := removeEach themesDir r'.2 themes
      (r'.1 && r.1, (if r'.1 then [] else theme) :: r.2.1, r.2.2)

def removeThemes (fs : Tree) (themesDir : Path) (themes : List Path) : Bool × List Path × Tree :=
  if (dirExists fs themesDir).isNone then (false, themes, fs) else removeEach themesDir fs themes

/-- The loop of `installThemes`: the themes that failed are left. -/
def installEach (themesDir : Path) : Disk → List Path → Bool × List Path × Disk
  | d, [] => (true, [], d)
  | d, theme :: themes =>
    if (d.fs.stat theme).isNone then
      let r := installEach themesDir d themes
      (false, theme :: r.2.1, r.2.2)
    else
      let r' := installDirTree PATH_MAX d (absoluteFilePath theme) (themesDir ++ fileName theme ++ ['/'])
      let r := installEach themesDir r'.2 themes
      (r'.1 && r.1, if r'.1 then r.2.1 else theme :: r.2.1, r.2.2)

def installThemes (d : Disk) (themesDir : Path) (themes : List Path) : Bool × List Path × Disk :=
  if (dirExists d.fs themesDir).isNone then (false, themes, d) else installEach themesDir d themes

inductive Request where
  | save (tempkdmrcfile tempbackgroundrcfile : Path)
  | createFacesDir
  | removeFace (user : Name)
  | installFace (user : Name) (sourcefile : Path)
  | createThemesDir
  | removeThemes (themes : List Path)
  | installThemes (themes : List Path)
  deriving DecidableEq, Repr

/-- A reply: the error code, and the themes for the caller. -/
structure Reply where
  code : Nat
  themes : List Path
  deriving DecidableEq, Repr

def reply (ok : Bool) (error : Nat) : Reply := ⟨if ok then 0 else error, []⟩

/-- The actions `save`, `managefaces` and `managethemes`. -/
def perform (st : Settings) (req : Request) (d : Disk) : Reply × Disk :=
  match req with
  | .save kdmrc backgroundrc =>
    let r1 := secureCopy d kdmrc st.kdmrc
    let r2 := secureCopy r1.2 backgroundrc st.backgroundrc
    (⟨(reply r1.1 1).code + (reply r2.1 2).code, []⟩, r2.2)
  | .createFacesDir =>
    let r := createDir d.fs st.facesDir
    (reply r.1 4, { d with fs := r.2 })
  | .removeFace user =>
    let r := removeFace d.fs st.facesDir user
    (reply r.1 8, { d with fs := r.2 })
  | .installFace user sourcefile =>
    let r := installFace d st.facesDir user sourcefile
    (reply r.1 16, r.2)
  | .createThemesDir =>
    let r := createDir d.fs st.themesDir.path
    (reply r.1 32, { d with fs := r.2 })
  | .removeThemes themes =>
    let r := removeThemes d.fs st.themesDir.path themes
    (⟨if r.1 then 0 else 64, r.2.1⟩, { d with fs := r.2.2 })
  | .installThemes themes =>
    let r := installThemes d st.themesDir.path themes
    (⟨if r.1 then 0 else 128, r.2.1⟩, r.2.2)

end Kdm.Helper
