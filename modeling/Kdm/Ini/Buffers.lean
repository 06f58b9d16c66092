import Kdm.Ini.Dmrc
import Kdm.Ini.Memory

/-!
# The buffers that `iniEntry` gets

The session keeps the data of a user in `curdmrc` and new settings in `newdmrc`.  Both come from
several places, and `iniEntry` relies on a newline at their ends.

* `Log` — the buffers that came to the loops of `iniEntry`, and whether a byte outside of a buffer
  was accessed.
* `step` — what the session does with its buffers.  It also notes which file or which arguments a
  buffer has come from.
* `Fine` — what a step needs of them.

Principal result: `kept_iff`.
-/

namespace Kdm.Ini.Buffers

open Ipc (Bytes CStr)
open Memory (Ready)
open Dmrc (Request iniLoad strOf)

/-! ## Accesses -/

structure Log where
  seen : List (Option Bytes)
  outside : Bool

/-- Every buffer was null or had a newline at its end, and nothing outside of one was accessed. -/
structure Log.Kept (log : Log) : Prop where
  ready : ∀ data ∈ log.seen, Ready data
  inside : log.outside = false

/-- The indices that `iniLoad` uses in its block of `len + 2` bytes, after it has read the file. -/
def indices (front : UInt8) (data : Bytes) : List Int :=
  let len : Int := data.length
  if data.getLast?.getD front ≠ 10 then [len - 1, len, len + 1] else [len - 1, len]

def inBlock (front : UInt8) (file : Option Bytes) : Bool :=
  match file with
  | none => true
  | some data =>
    decide (data.length ≥ 0x10000) ||
      (indices front data).all fun i => decide (0 ≤ i) && decide (i < data.length + 2)

/-- `iniLoad` -/
def Log.load (log : Log) (front : UInt8) (file : Option Bytes) : Log :=
  { log with outside := log.outside || !inBlock front file }

/-- `iniEntry`: its result, and that it was called. -/
def Log.entry (log : Log) (malloc : Nat → Bool) (data : Option Bytes) (sec key : Bytes)
    (value : Option Bytes) : Option Bytes × Log :=
  match Memory.iniEntry malloc data sec key value with
  | some r => (r, ⟨data :: log.seen, log.outside⟩)
  | none => (data, ⟨data :: log.seen, true⟩)

/-! ## The session -/

structure State where
  dmrc : Dmrc.State
  /-- the file that `curdmrc` was loaded from -/
  file : Option Bytes
  newdmrc : Option Bytes
  /-- the arguments that `newdmrc` is -/
  args : Option Bytes
  log : Log

def State.initial : State := ⟨⟨none, none⟩, none, none, none, ⟨[], false⟩⟩

/-- A key without a newline; the greeter sends `Session`. -/
abbrev Key := {key : Bytes // 0 ∉ key ∧ 10 ∉ key}

inductive Event where
  /-- `autoLogon` takes the arguments of the `login` command. -/
  | autoLogon (nargs : Option CStr)
  | readDmrc (r : Request)
  | getDmrc (key : Key)
  | putDmrc (key : Key) (value : CStr)
  /-- `file` is what the name in `mergeSessionArgs` stands for. -/
  | startClient (curuser : Bytes) (front : UInt8) (file : Option Bytes)

/-- `Desktop` -/
def desktop : Bytes := [68, 101, 115, 107, 116, 111, 112]

/-- `Session` -/
def session : Bytes := [83, 101, 115, 115, 105, 111, 110]

/-- `[Desktop]`, `Session=default` -/
def default : Bytes :=
  [91] ++ desktop ++ [93, 10] ++ session ++ [61, 100, 101, 102, 97, 117, 108, 116, 10]

/-- The file that `readDmrc` gives to `iniLoad`, if it comes to that. -/
def fileRead (disk : Dmrc.Disk) (name : Bytes) : Option Bytes :=
  (disk.user name).bind fun p =>
    if disk.dmrcDir ≠ [] then
      if disk.nomem then none else disk.files (disk.copyName p)
    else if disk.nomem || disk.lost p then none
    else disk.userFiles p (Dmrc.homeName p)

/-- An entry of the new text is put into the data. -/
def putEntry (malloc : Nat → Bool) (d : Option Bytes × Log) (e : Entry) :
    Option (Option Bytes × Log) :=
  some (d.2.entry malloc d.1 e.1.1 e.1.2 (some e.2))

/-- `iniMerge(curdmrc, newdmrc)` -/
def merge (malloc : Nat → Bool) (curdmrc newdmrc : Option Bytes) (log : Log) :
    Option Bytes × Log :=
  match newdmrc with
  | none => (curdmrc, log)
  | some p =>
    (mergeLoop malloc (putEntry malloc) none (curdmrc, log) p).getD
      (curdmrc, { log with outside := true })

/-- `if (strCmp(dmrcuser, curuser))` -/
def dropOther (s : State) (curuser : Bytes) : State :=
  if s.dmrc.dmrcuser ≠ some curuser then { s with dmrc := ⟨none, none⟩, file := none } else s

/-- `if (!curdmrc)` -/
def loadMissing (s : State) (front : UInt8) (file : Option Bytes) : State :=
  if s.dmrc.curdmrc = none then
    { s with
      dmrc := ⟨s.dmrc.dmrcuser, some ((iniLoad front file).getD (default ++ [0]))⟩
      file
      log := s.log.load front file }
  else s

/-- `mergeSessionArgs` up to the merge -/
def loadSession (s : State) (curuser : Bytes) (front : UInt8) (file : Option Bytes) : State :=
  loadMissing (dropOther s curuser) front file

def step (malloc : Nat → Bool) (s : State) : Event → State
  | .autoLogon nargs =>
    { s with newdmrc := nargs.map (·.1 ++ [0]), args := nargs.map (·.1) }
  | .readDmrc r =>
    if s.dmrc.dmrcuser ≠ some r.name then
      { s with
        dmrc := (s.dmrc.readDmrc r).2
        file := fileRead r.disk r.name
        log := s.log.load r.disk.front (fileRead r.disk r.name) }
    else s
  | .getDmrc key =>
    { s with log := (s.log.entry malloc s.dmrc.curdmrc desktop key.1 none).2 }
  | .putDmrc key value =>
    let r := s.log.entry malloc s.newdmrc desktop key.1 (some value.1)
    { s with newdmrc := r.1, args := none, log := r.2 }
  | .startClient curuser front file =>
    let s := loadSession s curuser front file
    let m := merge malloc s.dmrc.curdmrc s.newdmrc s.log
    { s with
      dmrc := ⟨s.dmrc.dmrcuser, m.1⟩
      file := none
      log := (m.2.entry malloc m.1 desktop session none).2 }

def run (malloc : Nat → Bool) (s : State) (es : List Event) : State := es.foldl (step malloc) s

/-! ## What the steps need -/

/-- The first zero in the file, if there is one, is behind a newline. -/
def FileEnds (file : Option Bytes) : Prop :=
  ∀ data ∈ file, data.length < 0x10000 → 0 ∈ data → (strOf data).getLast? = some 10

/-- The arguments end in a newline. -/
def ArgsEnd (args : Option Bytes) : Prop := ∀ a ∈ args, a.getLast? = some 10

/-- What a step needs of the file that it loads, and of the file or the arguments that the buffer it
uses has come from. -/
def Fine (s : State) : Event → Prop
  | .autoLogon _ => True
  | .readDmrc r => s.dmrc.dmrcuser ≠ some r.name → fileRead r.disk r.name ≠ some []
  | .getDmrc _ => FileEnds s.file
  | .putDmrc _ _ => ArgsEnd s.args
  | .startClient curuser _ file =>
    if s.dmrc.dmrcuser ≠ some curuser ∨ s.dmrc.curdmrc = none then
      file ≠ some [] ∧ FileEnds file
    else FileEnds s.file

/-- Every step of the run has what it needs. -/
def AllFine (malloc : Nat → Bool) : State → List Event → Prop
  | _, [] => True
  | s, e :: es => Fine s e ∧ AllFine malloc (step malloc s e) es

/-! ## Loaded buffers -/

section Loaded

variable {p data : Bytes} {file : Option Bytes} {front : UInt8}

theorem ready_none : Ready none := fun _ h => by cases h

theorem strOf_append {s : Bytes} (h : 0 ∉ s) (junk : Bytes) : strOf (s ++ 0 :: junk) = s :=
  (Lines.takeWhile_eq_iff.mpr ⟨h, junk, rfl⟩).2

theorem ready_iff (h : 0 ∈ p) : Ready (some p) ↔ (strOf p).getLast? = some 10 := by
  constructor
  · intro hp
    obtain ⟨s, junk, rfl, h0, hs⟩ := hp p rfl
    rw [strOf_append h0]
    exact hs
  · rintro hlast p' ⟨⟩
    obtain ⟨junk, hj, -⟩ := Lines.takeWhile_append h
    exact ⟨strOf p, junk, hj, Lines.not_mem_takeWhile 0 p, hlast⟩

theorem inBlock_iff (front : UInt8) (file : Option Bytes) :
    inBlock front file = true ↔ file ≠ some [] := by
  cases file with
  | none => simp [inBlock]
  | some data =>
    cases data with
    | nil =>
      refine iff_of_false ?_ (by simp)
      by_cases h : front = 10 <;> simp [inBlock, indices, h]
    | cons x data =>
      refine iff_of_true ?_ (by simp)
      have hpos : (0 : Int) < ((x :: data).length : Int) := by simp
      unfold inBlock indices
      generalize ((x :: data).length : Int) = len at hpos
      rw [Bool.or_eq_true]
      right
      split
      · simp
        omega
      · simp
        omega

theorem load_kept_iff (log : Log) (front : UInt8) (file : Option Bytes) :
    (log.load front file).Kept ↔ log.Kept ∧ file ≠ some [] := by
  rw [← inBlock_iff front file]
  constructor
  · rintro ⟨hr, hi⟩
    obtain ⟨ho, hb⟩ := Bool.or_eq_false_iff.mp hi
    exact ⟨⟨hr, ho⟩, by simpa using hb⟩
  · rintro ⟨⟨hr, ho⟩, hb⟩
    exact ⟨hr, Bool.or_eq_false_iff.mpr ⟨ho, by simpa using hb⟩⟩

/-- **The last byte of the file is not always the last one of the text.** -/
theorem ready_iniLoad_iff (front : UInt8) (hne : file ≠ some []) : Ready (iniLoad front file) ↔ FileEnds file := by
  cases file with
  | none => exact iff_of_true ready_none fun _ h => by cases h
  | some data =>
    unfold iniLoad
    rw [Option.bind_some]
    split
    · rename_i hlen
      refine iff_of_true ready_none ?_
      rintro d ⟨⟩ hlt
      omega
    · rename_i hlen
      have hnil : data ≠ [] := fun h => hne (by rw [h])
      obtain ⟨init, c, rfl⟩ := (List.eq_nil_or_concat' data).resolve_left hnil
      have hends : FileEnds (some (init ++ [c])) ↔
          (0 ∈ init ++ [c] → (strOf (init ++ [c])).getLast? = some 10) := by
        constructor
        · exact fun h => h _ rfl (by omega)
        · rintro h d ⟨⟩ -
          exact h
      rw [hends, ready_iff (by simp)]
      by_cases h0 : 0 ∈ init ++ [c]
      · -- what is put behind the file is behind the zero, too
        obtain ⟨t, ht, -⟩ := Lines.takeWhile_append h0
        have hstr (more : Bytes) : strOf (init ++ [c] ++ more) = strOf (init ++ [c]) := by
          nth_rewrite 1 [ht]
          rw [List.append_assoc, List.cons_append]
          exact strOf_append (Lines.not_mem_takeWhile 0 _) _
        rw [forall_prop_of_true h0]
        split
        · rw [List.append_assoc, hstr]
        · rw [hstr]
      · refine iff_of_true ?_ fun h => (h0 h).elim
        split
        · have h10 : 0 ∉ init ++ [c] ++ [10] := by
            intro hm
            rcases List.mem_append.mp hm with hm | hm
            · exact h0 hm
            · exact absurd (List.mem_singleton.mp hm) (by decide)
          rw [strOf_append h10]
          simp
        · rename_i hc
          rw [strOf_append h0]
          simpa using hc

/-- The pipe does not change the text. -/
theorem ready_sent_iff (file : Option Bytes) :
    Ready ((iniLoad front file).map fun data => strOf data ++ [0]) ↔ Ready (iniLoad front file) := by
  cases h : iniLoad front file with
  | none => exact Iff.rfl
  | some data =>
    have h0 : 0 ∈ data := by
      obtain ⟨f, -, hf⟩ := Option.bind_eq_some_iff.mp h
      split at hf
      · cases hf
      · cases hf
        simp
    have hstr : strOf (strOf data ++ [0]) = strOf data :=
      strOf_append (Lines.not_mem_takeWhile 0 data) []
    rw [Option.map_some, ready_iff h0, ready_iff (by simp), hstr]

theorem ready_readDmrc_iff {disk : Dmrc.Disk} {name : Bytes}
    (hne : fileRead disk name ≠ some []) :
    Ready (Dmrc.readDmrc disk name).2 ↔ FileEnds (fileRead disk name) := by
  have hnone : FileEnds none := fun _ h => by cases h
  unfold fileRead at hne ⊢
  unfold Dmrc.readDmrc
  cases hu : disk.user name with
  | none => exact iff_of_true ready_none hnone
  | some p =>
    rw [hu, Option.bind_some] at hne
    rw [Option.bind_some]
    dsimp only
    split
    · rename_i hdir
      rw [if_pos hdir] at hne
      split
      · exact iff_of_true ready_none hnone
      · rename_i hm
        rw [if_neg hm] at hne
        have hload := ready_iniLoad_iff disk.front hne
        cases hl : iniLoad disk.front (disk.files (disk.copyName p)) with
        | none =>
          rw [hl] at hload
          exact hload
        | some d =>
          rw [hl] at hload
          exact hload
    · rename_i hdir
      rw [if_neg hdir] at hne
      split
      · exact iff_of_true ready_none hnone
      · rename_i hm
        rw [if_neg hm] at hne
        have hload := (ready_sent_iff _).trans (ready_iniLoad_iff disk.front hne)
        change Ready (disk.sent p) ↔ _ at hload
        cases hs : disk.sent p with
        | none =>
          rw [hs] at hload
          exact hload
        | some d =>
          rw [hs] at hload
          exact hload

end Loaded

/-! ## Calls of `iniEntry` -/

section Entry

variable {malloc : Nat → Bool} {data newdmrc : Option Bytes} {log : Log} {sec key : Bytes}
  {value : Option Bytes}

/-- If all is well after a call, the buffer was ready. -/
theorem entry_kept (h : (log.entry malloc data sec key value).2.Kept) : log.Kept ∧ Ready data := by
  unfold Log.entry at h
  split at h
  · exact ⟨⟨fun d hd => h.ready d (List.mem_cons_of_mem data hd), h.inside⟩,
      h.ready data List.mem_cons_self⟩
  · cases h.inside

theorem kept_cons (hlog : log.Kept) (hdata : Ready data) :
    Log.Kept ⟨data :: log.seen, log.outside⟩ :=
  ⟨List.forall_mem_cons.mpr ⟨hdata, hlog.ready⟩, hlog.inside⟩

theorem lookup_kept (hsec : 10 ∉ sec) (hsec0 : 0 ∉ sec) (hkey : 10 ∉ key) (hkey0 : 0 ∉ key)
    (hlog : log.Kept) (hdata : Ready data) : (log.entry malloc data sec key none).2.Kept := by
  obtain ⟨r, hr⟩ := Memory.lookup_ready malloc hsec hsec0 hkey hkey0 hdata
  unfold Log.entry
  rw [hr]
  exact kept_cons hlog hdata

theorem store_kept (malloc : Nat → Bool) {v : Bytes} (hsec : 10 ∉ sec) (hsec0 : 0 ∉ sec) (hkey : 10 ∉ key)
    (hkey0 : 0 ∉ key) (hv : 0 ∉ v) (hlog : log.Kept) (hdata : Ready data) :
    (log.entry malloc data sec key (some v)).2.Kept ∧
      Ready (log.entry malloc data sec key (some v)).1 := by
  obtain ⟨r, hr, hready⟩ := Memory.store_ready malloc hsec hsec0 hkey hkey0 hv hdata
  unfold Log.entry
  rw [hr]
  exact ⟨kept_cons hlog hdata, hready⟩

/-- A buffer that is made by a call ends in a zero. -/
theorem entry_zero {v : Bytes} (h : ∀ p ∈ data, 0 ∈ p) :
    ∀ p ∈ (log.entry malloc data sec key (some v)).1, 0 ∈ p := by
  unfold Log.entry
  split
  · rename_i r hr
    obtain ⟨w, -, hr⟩ := Option.bind_eq_some_iff.mp hr
    obtain ⟨i, -, hr⟩ := Option.bind_eq_some_iff.mp hr
    cases hr
    split
    · rintro p ⟨⟩
      simp
    · exact h
  · exact h

theorem within_facts {l : Bytes} (h : ∀ x ∈ l, inLine x = true) : 10 ∉ l ∧ 0 ∉ l :=
  ⟨fun hm => absurd (h 10 hm) (by decide), fun hm => absurd (h 0 hm) (by decide)⟩

theorem noSection : ∀ s ∈ (none : Option Bytes), ∀ x ∈ s, inLine x = true :=
  fun _ h => by cases h

theorem merge_ready (malloc : Nat → Bool) (hzero : ∀ p ∈ newdmrc, 0 ∈ p) (hlog : log.Kept)
    (hdata : Ready data) :
    (merge malloc data newdmrc log).2.Kept ∧ Ready (merge malloc data newdmrc log).1 := by
  cases newdmrc with
  | none => exact ⟨hlog, hdata⟩
  | some p =>
    obtain ⟨r, hr, hI⟩ : ∃ r, mergeLoop malloc (putEntry malloc) none (data, log) p = some r ∧
        r.2.Kept ∧ Ready r.1 :=
      mergeLoop_bounded (I := fun d : Option Bytes × Log => d.2.Kept ∧ Ready d.1) noSection
        ⟨hlog, hdata⟩
        (fun d e hd he => ⟨_, rfl, store_kept malloc (within_facts he.sec).1 (within_facts he.sec).2
          (within_facts he.key).1 (within_facts he.key).2 (within_facts he.value).2 hd.1 hd.2⟩)
        malloc (hzero p rfl)
    unfold merge
    dsimp only
    rw [hr]
    exact hI

/-- If all is well after a merge, the old text was ready, or it was not used. -/
theorem merge_kept (hzero : ∀ p ∈ newdmrc, 0 ∈ p) (h : (merge malloc data newdmrc log).2.Kept) :
    log.Kept ∧ ((merge malloc data newdmrc log).1 = data ∨ Ready data) := by
  cases newdmrc with
  | none => exact ⟨h, .inl rfl⟩
  | some p =>
    obtain ⟨r, hr, hI⟩ : ∃ r, mergeLoop malloc (putEntry malloc) none (data, log) p = some r ∧
        (r.2.Kept → log.Kept ∧ (r.1 = data ∨ Ready data)) :=
      mergeLoop_bounded
        (I := fun d : Option Bytes × Log => d.2.Kept → log.Kept ∧ (d.1 = data ∨ Ready data))
        noSection (fun hlog => ⟨hlog, .inl rfl⟩)
        (fun d e hd _ => ⟨_, rfl, fun hk => by
          obtain ⟨hlog, hready⟩ := entry_kept hk
          obtain ⟨hlog₀, hdata | hdata⟩ := hd hlog
          · exact ⟨hlog₀, .inr (hdata ▸ hready)⟩
          · exact ⟨hlog₀, .inr hdata⟩⟩)
        malloc (hzero p rfl)
    unfold merge at h ⊢
    dsimp only at h ⊢
    rw [hr] at h ⊢
    exact hI h

/-- The end of a session: the merge and the lookup of the session type. -/
theorem merge_lookup_kept_iff (hzero : ∀ p ∈ newdmrc, 0 ∈ p) :
    (((merge malloc data newdmrc log).2.entry malloc (merge malloc data newdmrc log).1 desktop session
      none).2).Kept ↔ log.Kept ∧ Ready data := by
  constructor
  · intro h
    obtain ⟨hk, hready⟩ := entry_kept h
    obtain ⟨hlog, hdata | hdata⟩ := merge_kept hzero hk
    · exact ⟨hlog, hdata ▸ hready⟩
    · exact ⟨hlog, hdata⟩
  · rintro ⟨hlog, hdata⟩
    obtain ⟨hk, hready⟩ := merge_ready malloc hzero hlog hdata
    exact lookup_kept (by decide) (by decide) (by decide) (by decide) hk hready

end Entry

/-! ## Steps -/

/-- The file and the arguments that are noted tell whether the buffers are ready. -/
structure Traced (s : State) : Prop where
  cur : Ready s.dmrc.curdmrc ↔ FileEnds s.file
  new : Ready s.newdmrc ↔ ArgsEnd s.args
  zero : ∀ p ∈ s.newdmrc, 0 ∈ p

section Step

variable {malloc : Nat → Bool} {s : State} {e : Event}

theorem fileEnds_none : FileEnds none := fun _ h => by cases h

theorem argsEnd_none : ArgsEnd none := fun _ h => by cases h

theorem traced_initial : Traced .initial where
  cur := iff_of_true ready_none fileEnds_none
  new := iff_of_true ready_none argsEnd_none
  zero := fun _ h => by cases h

theorem desktop_line : 10 ∉ desktop ∧ 0 ∉ desktop := by decide

theorem default_ready : Ready (some (default ++ [0])) :=
  Memory.ready_text (by decide) (by decide)

theorem loadSession_loads {curuser : Bytes}
    (h : s.dmrc.dmrcuser ≠ some curuser ∨ s.dmrc.curdmrc = none) (front : UInt8)
    (file : Option Bytes) :
    ∃ user, loadSession s curuser front file =
      { s with
        dmrc := ⟨user, some ((iniLoad front file).getD (default ++ [0]))⟩
        file
        log := s.log.load front file } := by
  unfold loadSession dropOther
  by_cases huser : s.dmrc.dmrcuser ≠ some curuser
  · rw [if_pos huser]
    exact ⟨none, if_pos rfl⟩
  · rw [if_neg huser]
    exact ⟨_, if_pos (h.resolve_left huser)⟩

theorem loadSession_keeps {curuser : Bytes}
    (h : ¬(s.dmrc.dmrcuser ≠ some curuser ∨ s.dmrc.curdmrc = none)) (front : UInt8)
    (file : Option Bytes) : loadSession s curuser front file = s := by
  rw [not_or] at h
  unfold loadSession dropOther
  rw [if_neg h.1]
  exact if_neg h.2

/-- What the session starts with is ready exactly if the file is as it should be. -/
theorem loadSession_kept_iff (h : Traced s) (curuser : Bytes) (front : UInt8)
    (file : Option Bytes) :
    ((loadSession s curuser front file).log.Kept ∧
        Ready (loadSession s curuser front file).dmrc.curdmrc) ↔
      s.log.Kept ∧ Fine s (.startClient curuser front file) := by
  have hloaded : (s.log.load front file).Kept ∧
      Ready (some ((iniLoad front file).getD (default ++ [0]))) ↔
        s.log.Kept ∧ file ≠ some [] ∧ FileEnds file := by
    rw [load_kept_iff, and_assoc]
    refine and_congr_right fun _ => and_congr_right fun hne => ?_
    rw [← ready_iniLoad_iff front hne]
    cases iniLoad front file with
    | none => exact iff_of_true default_ready ready_none
    | some data => exact Iff.rfl
  have hfine : Fine s (.startClient curuser front file) ↔
      if s.dmrc.dmrcuser ≠ some curuser ∨ s.dmrc.curdmrc = none then
        file ≠ some [] ∧ FileEnds file
      else FileEnds s.file := Iff.rfl
  rw [hfine]
  by_cases hload : s.dmrc.dmrcuser ≠ some curuser ∨ s.dmrc.curdmrc = none
  · obtain ⟨user, hs⟩ := loadSession_loads hload front file
    rw [if_pos hload, hs]
    exact hloaded
  · rw [if_neg hload, loadSession_keeps hload, h.cur]

theorem loadSession_newdmrc (s : State) (curuser : Bytes) (front : UInt8) (file : Option Bytes) :
    (loadSession s curuser front file).newdmrc = s.newdmrc ∧
      (loadSession s curuser front file).args = s.args := by
  by_cases hload : s.dmrc.dmrcuser ≠ some curuser ∨ s.dmrc.curdmrc = none
  · obtain ⟨user, hs⟩ := loadSession_loads hload front file
    rw [hs]
    exact ⟨rfl, rfl⟩
  · rw [loadSession_keeps hload]
    exact ⟨rfl, rfl⟩

theorem step_readDmrc_other {r : Request} (h : s.dmrc.dmrcuser ≠ some r.name) :
    step malloc s (.readDmrc r) =
      { s with
        dmrc := ⟨some r.name, (Dmrc.readDmrc r.disk r.name).2⟩
        file := fileRead r.disk r.name
        log := s.log.load r.disk.front (fileRead r.disk r.name) } := by
  have hread : (s.dmrc.readDmrc r).2 = ⟨some r.name, (Dmrc.readDmrc r.disk r.name).2⟩ := by
    unfold Dmrc.State.readDmrc
    rw [if_pos h]
  rw [← hread]
  exact if_pos h

theorem step_readDmrc_same {r : Request} (h : ¬s.dmrc.dmrcuser ≠ some r.name) :
    step malloc s (.readDmrc r) = s :=
  if_neg h

/-- **One step** keeps to its buffers exactly if it has what it needs. -/
theorem step_kept_iff (malloc : Nat → Bool) (h : Traced s) (e : Event) :
    (step malloc s e).log.Kept ↔ s.log.Kept ∧ Fine s e := by
  cases e with
  | autoLogon nargs => exact (and_iff_left trivial).symm
  | readDmrc r =>
    show (step malloc s (.readDmrc r)).log.Kept ↔ s.log.Kept ∧ (_ → _)
    by_cases hf : s.dmrc.dmrcuser ≠ some r.name
    · rw [step_readDmrc_other hf, forall_prop_of_true hf]
      exact load_kept_iff _ _ _
    · rw [step_readDmrc_same hf, forall_prop_of_false hf]
      exact (and_iff_left trivial).symm
  | getDmrc key =>
    have hiff : Ready s.dmrc.curdmrc ↔ Fine s (.getDmrc key) := h.cur
    rw [← hiff]
    exact ⟨entry_kept, fun hk => lookup_kept desktop_line.1 desktop_line.2 key.2.2 key.2.1 hk.1 hk.2⟩
  | putDmrc key value =>
    have hiff : Ready s.newdmrc ↔ Fine s (.putDmrc key value) := h.new
    rw [← hiff]
    exact ⟨entry_kept, fun hk =>
      (store_kept malloc desktop_line.1 desktop_line.2 key.2.2 key.2.1 value.2 hk.1 hk.2).1⟩
  | startClient curuser front file =>
    rw [← loadSession_kept_iff h]
    refine merge_lookup_kept_iff ?_
    rw [(loadSession_newdmrc s curuser front file).1]
    exact h.zero

/-- The new settings keep their zero. -/
theorem zero_step (h : ∀ p ∈ s.newdmrc, 0 ∈ p) (e : Event) :
    ∀ p ∈ (step malloc s e).newdmrc, 0 ∈ p := by
  cases e with
  | autoLogon nargs =>
    cases nargs with
    | none => exact fun _ hp => by cases hp
    | some a =>
      rintro p ⟨⟩
      simp
  | readDmrc r =>
    by_cases hf : s.dmrc.dmrcuser ≠ some r.name
    · rw [step_readDmrc_other hf]
      exact h
    · rw [step_readDmrc_same hf]
      exact h
  | getDmrc key => exact h
  | putDmrc key value => exact entry_zero h
  | startClient curuser front file => exact (loadSession_newdmrc s curuser front file).1 ▸ h

theorem step_traced (h : Traced s) (hk : (step malloc s e).log.Kept) : Traced (step malloc s e) := by
  have hfine := ((step_kept_iff malloc h e).mp hk).2
  have hz : ∀ p ∈ (step malloc s e).newdmrc, 0 ∈ p := zero_step h.zero e
  cases e with
  | autoLogon nargs =>
    refine ⟨h.cur, ?_, hz⟩
    cases nargs with
    | none => exact iff_of_true ready_none argsEnd_none
    | some a =>
      show Ready (some (a.1 ++ [0])) ↔ ArgsEnd (some a.1)
      rw [ready_iff (by simp), strOf_append a.2]
      exact ⟨fun h b hb => by cases hb; exact h, fun h => h _ rfl⟩
  | readDmrc r =>
    by_cases hf : s.dmrc.dmrcuser ≠ some r.name
    · rw [step_readDmrc_other hf]
      exact ⟨ready_readDmrc_iff (hfine hf), h.new, h.zero⟩
    · rw [step_readDmrc_same hf]
      exact h
  | getDmrc key => exact ⟨h.cur, h.new, hz⟩
  | putDmrc key value =>
    obtain ⟨hlog, hready⟩ := entry_kept hk
    have hnew := (store_kept malloc desktop_line.1 desktop_line.2 key.2.2 key.2.1 value.2
      hlog hready).2
    exact ⟨h.cur, iff_of_true hnew argsEnd_none, hz⟩
  | startClient curuser front file =>
    obtain ⟨hnew, hargs⟩ := loadSession_newdmrc s curuser front file
    have hzero : ∀ p ∈ (loadSession s curuser front file).newdmrc, 0 ∈ p := hnew ▸ h.zero
    obtain ⟨hlog, hready⟩ := (merge_lookup_kept_iff hzero).mp hk
    refine ⟨iff_of_true (merge_ready malloc hzero hlog hready).2 fileEnds_none, ?_, hzero⟩
    show Ready (loadSession s curuser front file).newdmrc ↔
      ArgsEnd (loadSession s curuser front file).args
    rw [hnew, hargs]
    exact h.new

theorem kept_of_loadSession {curuser : Bytes} {front : UInt8} {file : Option Bytes}
    (h : (loadSession s curuser front file).log.Kept) : s.log.Kept := by
  by_cases hload : s.dmrc.dmrcuser ≠ some curuser ∨ s.dmrc.curdmrc = none
  · obtain ⟨user, hs⟩ := loadSession_loads hload front file
    rw [hs] at h
    exact ((load_kept_iff _ _ _).mp h).1
  · rwa [loadSession_keeps hload] at h

/-- What went wrong stays in the log. -/
theorem kept_of_step (hz : ∀ p ∈ s.newdmrc, 0 ∈ p) (h : (step malloc s e).log.Kept) :
    s.log.Kept := by
  cases e with
  | autoLogon nargs => exact h
  | readDmrc r =>
    by_cases hf : s.dmrc.dmrcuser ≠ some r.name
    · rw [step_readDmrc_other hf] at h
      exact ((load_kept_iff _ _ _).mp h).1
    · rwa [step_readDmrc_same hf] at h
  | getDmrc key => exact (entry_kept h).1
  | putDmrc key value => exact (entry_kept h).1
  | startClient curuser front file =>
    have hzero : ∀ p ∈ (loadSession s curuser front file).newdmrc, 0 ∈ p :=
      (loadSession_newdmrc s curuser front file).1 ▸ hz
    exact kept_of_loadSession ((merge_lookup_kept_iff hzero).mp h).1

theorem kept_of_run (es : List Event) : ∀ {s : State}, (∀ p ∈ s.newdmrc, 0 ∈ p) →
    (run malloc s es).log.Kept → s.log.Kept := by
  induction es with
  | nil => exact fun _ h => h
  | cons e es ih => exact fun hz h => kept_of_step hz (ih (zero_step hz e) h)

/-- A run keeps to its buffers exactly if every step has what it needs. -/
theorem run_kept_iff (es : List Event) : ∀ {s : State}, Traced s →
    ((run malloc s es).log.Kept ↔ s.log.Kept ∧ AllFine malloc s es) := by
  induction es with
  | nil => exact fun _ => (and_iff_left trivial).symm
  | cons e es ih =>
    intro s h
    show (run malloc (step malloc s e) es).log.Kept ↔
      s.log.Kept ∧ Fine s e ∧ AllFine malloc (step malloc s e) es
    rw [← and_assoc, ← step_kept_iff malloc h e]
    by_cases hk : (step malloc s e).log.Kept
    · rw [ih (step_traced h hk)]
    · -- the notes are of no use behind a step that failed
      exact iff_of_false (fun hrun => hk (kept_of_run es (zero_step h.zero e) hrun))
        fun hrun => hk hrun.1

end Step

/-- The user `a` has an empty `.dmrc`. -/
def emptyDmrc : Request :=
  ⟨[97], { dmrcDir := [], getpwnam := fun name => some ⟨name, [47]⟩, files := fun _ => none,
           userFiles := fun _ _ => some [], nomem := false, lost := fun _ => false, front := 0 }⟩

end Kdm.Ini.Buffers
