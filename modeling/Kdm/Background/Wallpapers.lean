import Mathlib.Data.List.Basic

/-!
# The current wallpaper

`KBackgroundSettings` of `bgsettings.cpp` keeps a list of wallpaper files and an index into it.  The
files are looked for on the disk, whenever the list of wallpapers changes; the index is read from the
configuration, follows the name of the current wallpaper, and is moved by the slide show.

* `step` — a call; it is `none` where an element is taken outside of the list.
* `Settings.Valid` — the index is in the list, or there is no file.
* `Harmless` — a call that the code handles well from a valid index.

Principal result: `wallpapers_sound_iff`.  In a run the index stays valid exactly as long as the calls are
harmless.
-/

namespace Kdm.Background

abbrev Path := String

/-- `MultiMode`. -/
inductive MultiMode
  | NoMulti
  | InOrder
  | Random
  | NoMultiRandom
deriving DecidableEq

open MultiMode hiding Random

/-- What a call finds outside of the settings: the files, and the numbers of `rseq`. -/
structure Disk where
  relativeLocation : Path → Path
  locate : Path → Path
  exists' : Path → Bool
  isFile : Path → Bool
  isReadable : Path → Bool
  isDir : Path → Bool
  /-- the absolute paths of `entryList(QDir::Files | QDir::Readable)` -/
  entryList : Path → List Path
  getLong : Nat → Nat

/-- The stored configuration, as far as the wallpapers go. -/
structure Stored where
  WallpaperList : List Path
  CurrentWallpaper : Int
  CurrentWallpaperName : Path
  /-- the value of `m_MMMap`, if the name of the mode is there -/
  MultiWallpaperMode : Option MultiMode

structure Settings where
  WallpaperList : List Path
  WallpaperFiles : List Path
  CurrentWallpaper : Int
  CurrentWallpaperName : Path
  MultiMode : MultiMode

def defMultiMode : MultiMode := NoMulti

/-! ## The files -/

/-- The files that an entry of the list stands for. -/
def filesOf (d : Disk) (entry : Path) : List Path :=
  let file := d.locate entry
  if file = "" ∨ ! d.exists' file then []
  else
    (if d.isFile file && d.isReadable file then [file] else []) ++
      (if d.isDir file then
        (d.entryList file).filter fun f => d.isFile f && d.isReadable f
      else [])

/-- The loop of `randomizeWallpaperFiles`; `getLong n` is below `n`. -/
def shuffle (d : Disk) : List Path → List Path → List Path
  | randomList, [] => randomList
  | randomList, file :: tmpList =>
    let t := d.getLong randomList.length % (randomList.length + 1)
    shuffle d (randomList.insertIdx t file) tmpList

def randomizeWallpaperFiles (d : Disk) (files : List Path) : List Path :=
  if files.length < 4 then files
  else
    match files with
    | [] => []
    | front :: tmpList => shuffle d [front] tmpList

def updateWallpaperFiles (d : Disk) (s : Settings) : Settings :=
  let files := s.WallpaperList.flatMap (filesOf d)
  { s with
    WallpaperFiles := if s.MultiMode = .Random then randomizeWallpaperFiles d files else files }

/-- `QStringList::indexOf`. -/
def indexOf (files : List Path) (name : Path) : Int :=
  if name ∈ files then (files.idxOf name : Int) else -1

/-- An element of the list of files: `operator[]` and `at`. -/
def elementAt (files : List Path) (index : Int) : Option Path :=
  if 0 ≤ index then files[index.toNat]? else none

/-! ## The calls -/

/-- Where a slide show goes on; in the other modes the index stays. -/
def advance (d : Disk) (init : Bool) (s : Settings) : Settings :=
  let next := s.CurrentWallpaper + 1
  match s.MultiMode with
  | InOrder =>
    if init ∨ s.WallpaperFiles.length ≤ next then { s with CurrentWallpaper := 0 }
    else { s with CurrentWallpaper := next }
  | .Random =>
    if init ∨ s.WallpaperFiles.length ≤ next then
      { s with
        CurrentWallpaper := 0
        WallpaperFiles := randomizeWallpaperFiles d s.WallpaperFiles }
    else { s with CurrentWallpaper := next }
  | _ => s

/-- The name of the wallpaper that the index points to is remembered, and written. -/
def takeCurrent (s : Settings) : Option Settings :=
  (elementAt s.WallpaperFiles s.CurrentWallpaper).map fun name =>
    { s with CurrentWallpaperName := name }

def changeWallpaper (d : Disk) (init : Bool) (s : Settings) : Option Settings :=
  if s.WallpaperFiles.length = 0 then
    some (if init then { s with CurrentWallpaper := 0, CurrentWallpaperName := "" } else s)
  else takeCurrent (advance d init s)

/-- What `readSettings` reads; nothing of the old settings is kept. -/
def readStored (c : Stored) : Settings :=
  { WallpaperList := c.WallpaperList
    WallpaperFiles := []
    CurrentWallpaper := c.CurrentWallpaper
    CurrentWallpaperName := c.CurrentWallpaperName
    MultiMode := c.MultiWallpaperMode.getD defMultiMode }

def readSettings (d : Disk) (c : Stored) : Settings :=
  let s := updateWallpaperFiles d (readStored c)
  let index :=
    if s.CurrentWallpaperName ≠ "" then indexOf s.WallpaperFiles s.CurrentWallpaperName
    else s.CurrentWallpaper
  { s with CurrentWallpaper := if index < 0 then 0 else index }

/-- `relativeLocation`, where it gives something. -/
def relative (d : Disk) (list : List Path) : List Path :=
  list.map fun entry => if d.relativeLocation entry ≠ "" then d.relativeLocation entry else entry

/-- The new list, and one before the wanted file: the slide show goes on to it. -/
def withList (d : Disk) (list : List Path) (s : Settings) : Settings :=
  let s := updateWallpaperFiles d { s with WallpaperList := relative d list }
  { s with CurrentWallpaper := indexOf s.WallpaperFiles s.CurrentWallpaperName - 1 }

def setWallpaperList (d : Disk) (list : List Path) (s : Settings) : Option Settings :=
  if s.WallpaperList = list then some s
  else
    let s := withList d list s
    changeWallpaper d (s.CurrentWallpaper < 0) s

def setMultiWallpaperMode (d : Disk) (mode : MultiMode) (s : Settings) : Option Settings :=
  if s.MultiMode = mode then some s
  else changeWallpaper d true { s with MultiMode := mode }

def discardCurrentWallpaper (d : Disk) (s : Settings) : Option Settings :=
  match s.MultiMode with
  | NoMulti | NoMultiRandom => some s
  | _ => do
    let name ← elementAt s.WallpaperFiles s.CurrentWallpaper
    changeWallpaper d false
      { s with
        WallpaperFiles := s.WallpaperFiles.filter (· ≠ name)
        CurrentWallpaper := s.CurrentWallpaper - 1 }

inductive Call
  | readSettings (c : Stored)
  | setWallpaperList (list : List Path)
  | setMultiWallpaperMode (mode : MultiMode)
  | changeWallpaper (init : Bool)
  | discardCurrentWallpaper

def step (s : Settings) (d : Disk) : Call → Option Settings
  | .readSettings c => some (readSettings d c)
  | .setWallpaperList list => setWallpaperList d list s
  | .setMultiWallpaperMode mode => setMultiWallpaperMode d mode s
  | .changeWallpaper init => changeWallpaper d init s
  | .discardCurrentWallpaper => discardCurrentWallpaper d s

/-! ## The property -/

/-- The index is in the list, or there is no file. -/
def Settings.Valid (s : Settings) : Prop :=
  s.WallpaperFiles = [] ∨ 0 ≤ s.CurrentWallpaper ∧ s.CurrentWallpaper < s.WallpaperFiles.length

/-- **The property**: no call of a run takes an element outside of the list, and each one leaves the
index valid. -/
def Sound : Settings → List (Disk × Call) → Prop
  | _, [] => True
  | s, (d, c) :: run => ∃ s', step s d c = some s' ∧ s'.Valid ∧ Sound s' run

/-- The files of a list of wallpapers, in the order of the list. -/
def filesIn (d : Disk) (list : List Path) : List Path := list.flatMap (filesOf d)

/-- What a call asks for: a stored index is one of the list, the list changes in a slide show, or the
current wallpaper is in the new one behind the first place, and there is a wallpaper to discard. -/
def Harmless (s : Settings) (d : Disk) : Call → Prop
  | .readSettings c =>
    c.CurrentWallpaperName ≠ "" ∨ filesIn d c.WallpaperList = [] ∨
      c.CurrentWallpaper < (filesIn d c.WallpaperList).length
  | .setWallpaperList list =>
    s.WallpaperList = list ∨ s.MultiMode = InOrder ∨ s.MultiMode = .Random ∨
      filesIn d (relative d list) = [] ∨
        1 ≤ indexOf (filesIn d (relative d list)) s.CurrentWallpaperName
  | .setMultiWallpaperMode _ => True
  | .changeWallpaper _ => True
  | .discardCurrentWallpaper =>
    s.MultiMode = NoMulti ∨ s.MultiMode = NoMultiRandom ∨ s.WallpaperFiles ≠ []

/-- The calls of a run are harmless, as far as it goes. -/
def AllHarmless : Settings → List (Disk × Call) → Prop
  | _, [] => True
  | s, (d, c) :: run => Harmless s d c ∧ ∀ s', step s d c = some s' → AllHarmless s' run

variable {d : Disk} {s : Settings} {files : List Path} {name : Path} {index : Int} {init : Bool}

/-! ## The lists -/

theorem length_shuffle (d : Disk) (randomList tmpList : List Path) :
    (shuffle d randomList tmpList).length = randomList.length + tmpList.length := by
  induction tmpList generalizing randomList with
  | nil => rfl
  | cons file tmpList ih =>
    have ht := Nat.mod_lt (d.getLong randomList.length) (Nat.succ_pos randomList.length)
    rw [shuffle, ih, List.length_insertIdx_of_le_length (Nat.le_of_lt_succ ht), List.length_cons]
    omega

@[simp] theorem length_randomizeWallpaperFiles (d : Disk) (files : List Path) :
    (randomizeWallpaperFiles d files).length = files.length := by
  unfold randomizeWallpaperFiles
  split
  · rfl
  · cases files with
    | nil => rfl
    | cons front tmpList =>
      rw [length_shuffle, List.length_singleton, List.length_cons]
      omega

theorem length_updateWallpaperFiles (d : Disk) (s : Settings) :
    (updateWallpaperFiles d s).WallpaperFiles.length = (filesIn d s.WallpaperList).length := by
  unfold updateWallpaperFiles filesIn
  dsimp only
  split
  · rw [length_randomizeWallpaperFiles]
  · rfl

theorem updateWallpaperFiles_nil (d : Disk) (s : Settings) :
    (updateWallpaperFiles d s).WallpaperFiles = [] ↔ filesIn d s.WallpaperList = [] := by
  rw [← List.length_eq_zero_iff, length_updateWallpaperFiles, List.length_eq_zero_iff]

theorem neg_one_le_indexOf (files : List Path) (name : Path) : -1 ≤ indexOf files name := by
  unfold indexOf
  split <;> omega

theorem indexOf_lt (files : List Path) (name : Path) : indexOf files name < files.length := by
  unfold indexOf
  split
  · rename_i hm
    have := List.idxOf_lt_length_of_mem hm
    omega
  · omega

theorem elementAt_eq_some (h0 : 0 ≤ index) (h : index < files.length) :
    ∃ name, elementAt files index = some name := by
  unfold elementAt
  rw [if_pos h0, List.getElem?_eq_getElem (by omega)]
  exact ⟨_, rfl⟩

theorem of_elementAt_eq_some (h : elementAt files index = some name) :
    0 ≤ index ∧ index < files.length := by
  unfold elementAt at h
  split at h
  · obtain ⟨hi, -⟩ := List.getElem?_eq_some_iff.mp h
    omega
  · cases h

/-! ## What a call does -/

/-- A call takes no element outside of the list and leaves the index valid. -/
def Works (o : Option Settings) : Prop := ∃ s', o = some s' ∧ s'.Valid

theorem works_some : Works (some s) ↔ s.Valid :=
  ⟨fun ⟨_, he, hv⟩ => Option.some.inj he ▸ hv, fun hv => ⟨s, rfl, hv⟩⟩

/-- `MultiMode` is one of a slide show. -/
def Show (mode : MultiMode) : Prop := mode = InOrder ∨ mode = .Random

theorem works_empty (hf : s.WallpaperFiles = []) : Works (changeWallpaper d init s) := by
  unfold changeWallpaper
  rw [if_pos (List.length_eq_zero_iff.mpr hf), works_some]
  cases init <;> exact Or.inl hf

theorem works_takeCurrent : Works (takeCurrent s) ↔
    0 ≤ s.CurrentWallpaper ∧ s.CurrentWallpaper < s.WallpaperFiles.length := by
  unfold takeCurrent
  constructor
  · rintro ⟨s', he, -⟩
    obtain ⟨name, hn, -⟩ := Option.map_eq_some_iff.mp he
    exact of_elementAt_eq_some hn
  · rintro ⟨h0, h⟩
    obtain ⟨name, hn⟩ := elementAt_eq_some h0 h
    rw [hn, Option.map_some, works_some]
    exact Or.inr ⟨h0, h⟩

/-- The slide show goes on from the place before the list, too. -/
theorem advance_show (hm : Show s.MultiMode) (hf : s.WallpaperFiles ≠ [])
    (hi : init = true ∨ -1 ≤ s.CurrentWallpaper) :
    0 ≤ (advance d init s).CurrentWallpaper ∧
      (advance d init s).CurrentWallpaper < (advance d init s).WallpaperFiles.length := by
  have hpos := List.length_pos_of_ne_nil hf
  unfold advance
  obtain hm | hm := hm <;> simp only [hm]
  · split
    · simpa using hpos
    · rename_i hw
      rw [not_or] at hw
      have := hi.resolve_left hw.1
      dsimp only
      omega
  · split
    · simpa using hpos
    · rename_i hw
      rw [not_or] at hw
      have := hi.resolve_left hw.1
      dsimp only
      omega

theorem advance_still (hm : ¬ Show s.MultiMode) : advance d init s = s := by
  unfold Show at hm
  rw [not_or] at hm
  unfold advance
  split
  · rename_i hmode
    exact absurd hmode hm.1
  · rename_i hmode
    exact absurd hmode hm.2
  · rfl

theorem works_show (hm : Show s.MultiMode) (hi : init = true ∨ -1 ≤ s.CurrentWallpaper) :
    Works (changeWallpaper d init s) := by
  by_cases hf : s.WallpaperFiles = []
  · exact works_empty hf
  · unfold changeWallpaper
    rw [if_neg fun h => hf (List.length_eq_zero_iff.mp h), works_takeCurrent]
    exact advance_show hm hf hi

/-- Outside of a slide show the index is used as it is. -/
theorem works_still (hm : ¬ Show s.MultiMode) (hf : s.WallpaperFiles ≠ []) :
    Works (changeWallpaper d init s) ↔
      0 ≤ s.CurrentWallpaper ∧ s.CurrentWallpaper < s.WallpaperFiles.length := by
  unfold changeWallpaper
  rw [if_neg fun h => hf (List.length_eq_zero_iff.mp h), works_takeCurrent, advance_still hm]

theorem works_changeWallpaper (hv : s.Valid) : Works (changeWallpaper d init s) := by
  by_cases hf : s.WallpaperFiles = []
  · exact works_empty hf
  obtain hv | hv := hv
  · exact absurd hv hf
  by_cases hm : Show s.MultiMode
  · exact works_show hm (Or.inr (by omega))
  · exact (works_still hm hf).mpr hv

theorem works_setMultiWallpaperMode (mode : MultiMode) (hv : s.Valid) :
    Works (setMultiWallpaperMode d mode s) := by
  unfold setMultiWallpaperMode
  split
  · exact works_some.mpr hv
  · exact works_changeWallpaper (s := { s with MultiMode := mode }) hv

theorem withList_files (list : List Path) (hm : ¬ Show s.MultiMode) :
    (withList d list s).WallpaperFiles = filesIn d (relative d list) :=
  if_neg fun hr => hm (Or.inr hr)

theorem withList_index (list : List Path) (s : Settings) : (withList d list s).CurrentWallpaper =
    indexOf (withList d list s).WallpaperFiles s.CurrentWallpaperName - 1 := rfl

theorem works_setWallpaperList (list : List Path) (hv : s.Valid) :
    Works (setWallpaperList d list s) ↔ Harmless s d (.setWallpaperList list) := by
  unfold setWallpaperList
  dsimp only [Harmless]
  split
  · rename_i heq
    exact iff_of_true (works_some.mpr hv) (Or.inl heq)
  rename_i hne
  rw [or_iff_right hne, ← or_assoc]
  by_cases hm : Show s.MultiMode
  · refine iff_of_true (works_show (s := withList d list s) hm ?_) (Or.inl hm)
    by_cases hneg : (withList d list s).CurrentWallpaper < 0
    · exact Or.inl (decide_eq_true hneg)
    · exact Or.inr (by omega)
  rw [or_iff_right (show ¬ (s.MultiMode = InOrder ∨ s.MultiMode = .Random) from hm)]
  have hfiles := withList_files (d := d) list hm
  by_cases hf : filesIn d (relative d list) = []
  · exact iff_of_true (works_empty (hfiles.trans hf)) (Or.inl hf)
  have hi := withList_index (d := d) list s
  have hlt := indexOf_lt (filesIn d (relative d list)) s.CurrentWallpaperName
  rw [or_iff_right hf, works_still (s := withList d list s) hm (hfiles ▸ hf), hi, hfiles]
  omega

theorem discard_show (hm : Show s.MultiMode) : discardCurrentWallpaper d s =
    (elementAt s.WallpaperFiles s.CurrentWallpaper).bind fun name => changeWallpaper d false
      { s with
        WallpaperFiles := s.WallpaperFiles.filter (· ≠ name)
        CurrentWallpaper := s.CurrentWallpaper - 1 } := by
  unfold discardCurrentWallpaper
  obtain hm | hm := hm <;> simp only [hm] <;> rfl

theorem still_iff (mode : MultiMode) : ¬ Show mode ↔ mode = NoMulti ∨ mode = NoMultiRandom := by
  cases mode <;> simp [Show]

theorem discard_still (hm : ¬ Show s.MultiMode) : discardCurrentWallpaper d s = some s := by
  rw [still_iff] at hm
  unfold discardCurrentWallpaper
  obtain hm | hm := hm <;> simp only [hm]

theorem works_discardCurrentWallpaper (hv : s.Valid) :
    Works (discardCurrentWallpaper d s) ↔ Harmless s d .discardCurrentWallpaper := by
  dsimp only [Harmless]
  rw [← or_assoc, ← still_iff]
  by_cases hm : Show s.MultiMode
  · rw [discard_show hm, or_iff_right (not_not.mpr hm)]
    constructor
    · rintro ⟨s', he, -⟩ hf
      obtain ⟨name, hn, -⟩ := Option.bind_eq_some_iff.mp he
      have := of_elementAt_eq_some hn
      rw [hf, List.length_nil] at this
      omega
    · intro hf
      have hv := hv.resolve_left hf
      obtain ⟨name, hn⟩ := elementAt_eq_some hv.1 hv.2
      rw [hn, Option.bind_some]
      refine works_show hm (Or.inr ?_)
      dsimp only
      omega
  · rw [discard_still hm, works_some]
    exact iff_of_true hv (Or.inl hm)

theorem works_readSettings (d : Disk) (c : Stored) (s : Settings) :
    Works (some (readSettings d c)) ↔ Harmless s d (.readSettings c) := by
  rw [works_some]
  dsimp only [Harmless, Settings.Valid]
  have hlen : (readSettings d c).WallpaperFiles.length = (filesIn d c.WallpaperList).length :=
    length_updateWallpaperFiles d (readStored c)
  have hnil : (readSettings d c).WallpaperFiles = [] ↔ filesIn d c.WallpaperList = [] :=
    updateWallpaperFiles_nil d (readStored c)
  rw [hnil, hlen]
  by_cases hf : filesIn d c.WallpaperList = []
  · exact iff_of_true (Or.inl hf) (Or.inr (Or.inl hf))
  have hpos := List.length_pos_of_ne_nil hf
  rw [or_iff_right hf, or_iff_right hf]
  by_cases hname : c.CurrentWallpaperName = ""
  · have hi : (readSettings d c).CurrentWallpaper =
        if c.CurrentWallpaper < 0 then 0 else c.CurrentWallpaper := by
      dsimp only [readSettings]
      rw [if_neg (not_not.mpr (show (updateWallpaperFiles d (readStored c)).CurrentWallpaperName = ""
        from hname))]
      rfl
    rw [or_iff_right (not_not.mpr hname), hi]
    split <;> omega
  · have hlt := indexOf_lt (readSettings d c).WallpaperFiles c.CurrentWallpaperName
    have hi : (readSettings d c).CurrentWallpaper =
        if indexOf (readSettings d c).WallpaperFiles c.CurrentWallpaperName < 0 then 0
        else indexOf (readSettings d c).WallpaperFiles c.CurrentWallpaperName := by
      dsimp only [readSettings]
      rw [if_pos (show (updateWallpaperFiles d (readStored c)).CurrentWallpaperName ≠ "" from hname)]
      rfl
    refine iff_of_true ?_ (Or.inl hname)
    rw [hlen] at hlt
    rw [hi]
    split <;> omega

/-! ## The runs -/

/-- From a valid index, exactly the harmless calls work. -/
theorem works_step (c : Call) (hv : s.Valid) : Works (step s d c) ↔ Harmless s d c := by
  cases c with
  | readSettings c => exact works_readSettings d c s
  | setWallpaperList list => exact works_setWallpaperList list hv
  | setMultiWallpaperMode mode => exact iff_of_true (works_setMultiWallpaperMode mode hv) trivial
  | changeWallpaper init => exact iff_of_true (works_changeWallpaper hv) trivial
  | discardCurrentWallpaper => exact works_discardCurrentWallpaper hv

theorem sound_cons (s : Settings) (d : Disk) (c : Call) (run : List (Disk × Call))
    (hw : Works (step s d c) ↔ Harmless s d c)
    (hrun : ∀ s', s'.Valid → (Sound s' run ↔ AllHarmless s' run)) :
    Sound s ((d, c) :: run) ↔ AllHarmless s ((d, c) :: run) := by
  constructor
  · rintro ⟨s', hs, hv, hr⟩
    refine ⟨hw.mp ⟨s', hs, hv⟩, fun s'' hs' => ?_⟩
    rw [hs] at hs'
    cases hs'
    exact (hrun s' hv).mp hr
  · rintro ⟨hh, hr⟩
    obtain ⟨s', hs, hv⟩ := hw.mpr hh
    exact ⟨s', hs, hv, (hrun s' hv).mpr (hr s' hs)⟩

theorem sound_of_valid (run : List (Disk × Call)) (hv : s.Valid) :
    Sound s run ↔ AllHarmless s run := by
  induction run generalizing s with
  | nil => exact iff_of_true trivial trivial
  | cons e run ih =>
    obtain ⟨d, c⟩ := e
    exact sound_cons s d c run (works_step c hv) fun s' hv' => ih hv'

/-- **The wallpaper index stays valid** exactly in the runs of harmless calls.  A run begins with the
`readSettings` of the constructor, before which the members have any values. -/
theorem wallpapers_sound_iff (s : Settings) (d : Disk) (c : Stored) (run : List (Disk × Call)) :
    Sound s ((d, .readSettings c) :: run) ↔ AllHarmless s ((d, .readSettings c) :: run) :=
  sound_cons s d _ run (works_readSettings d c s) fun _ hv => sound_of_valid run hv

namespace Sample

/-- A disk with one wallpaper. -/
def disk : Disk where
  relativeLocation _ := ""
  locate file := file
  exists' file := file == "/w.png"
  isFile file := file == "/w.png"
  isReadable _ := true
  isDir _ := false
  entryList _ := []
  getLong _ := 0

/-- A configuration in which no wallpaper is set up. -/
def fresh : Stored := ⟨[], 0, "", none⟩

end Sample

/-- The dialog sets the list before the mode: without a slide show the index is two before the list. -/
theorem wallpapers_not_sound : ¬ ∀ (s : Settings) (d : Disk) (c : Stored) (run : List (Disk × Call)),
    Sound s ((d, .readSettings c) :: run) := by
  intro h
  have hs := h (readStored Sample.fresh) Sample.disk Sample.fresh
    [(Sample.disk, .setWallpaperList ["/w.png"])]
  have hnone : (step (readSettings Sample.disk Sample.fresh) Sample.disk
      (.setWallpaperList ["/w.png"])).isSome = false := by decide
  obtain ⟨s', hs', -, s'', hs'', -⟩ := hs
  cases hs'
  rw [hs''] at hnone
  cases hnone

end Kdm.Background
