import Kdm.Lib.Runs
import Mathlib.Logic.Function.Basic

/-!
# Edits of the configuration and the config reader

`resource.c` notes the modification time of kdmrc when it asks for values, and the config reader,
which is another process and stays there for several requests, reads the file once.

* `State` — the file, the reader, and what the daemon noted and loaded for each dependency.
* `step` — an edit, or what the daemon does between two looks at the file.
* `Current` — no update is lost.

Principal results: `current_of_reaches`, and `current_answer_iff` for one request.
-/

namespace Kdm.Getter.Updates

open Runs

variable {κ γ β : Type}

structure File (γ : Type) where
  content : γ
  mtime : Int
  deriving DecidableEq

/-- The config reader.  `confread` holds what it has read, and after an error on its pipe it is only
good for being waited for. -/
inductive Reader (γ : Type) where
  | closed
  | running (confread : Option γ)
  | broken
  deriving DecidableEq

/-- Between two calls, in front of a request for the values of a dependency, or in `getDeps` with
the names of the files. -/
inductive Phase (κ β : Type) where
  | idle
  | asked (what : κ)
  | named (names : β)
  deriving DecidableEq

/-- `dep` is the time in a `CfgDep`, if it has a name; that of `none` is the `deptime` in
`cfgFiles`, which goes with the names of the files. -/
structure State (κ γ β : Type) where
  file : File γ
  getter : Reader γ
  dep : Option κ → Option Int
  values : Option κ → Option β
  phase : Phase κ β

inductive Event (κ γ : Type) where
  | edit (file : File γ)
  | needsReScan (what : κ) (force : Bool)
  | loadResources
  /-- the pipe breaks, possibly when the old values were freed already -/
  | gErr (freed : Bool)
  | openGetter
  | getDeps
  /-- `getDeps` looks at the time of the file -/
  | mTime
  | closeGetter

def openGetter : Reader γ → Reader γ
  | .closed => .running none
  | r => r

/-- `readConfig`, which does nothing the second time. -/
def readConfig (file : File γ) : Reader γ → Reader γ
  | .running none => .running (some file.content)
  | r => r

/-- The part of `startConfig` in front of the request. -/
def needsReScan [DecidableEq κ] (s : State κ γ β) (what : κ) (force : Bool) : State κ γ β :=
  if s.dep (some what) ≠ some s.file.mtime then
    { s with dep := Function.update s.dep (some what) (some s.file.mtime), phase := .asked what }
  else if force then { s with phase := .asked what }
  else s

/-- An edit changes the modification time.  `eval` is what the reader makes of a file for a
dependency. -/
def step [DecidableEq κ] (eval : Option κ → γ → β) :
    Event κ γ → State κ γ β → Option (State κ γ β)
  | .edit file, s => if file.mtime ≠ s.file.mtime then some { s with file } else none
  | .needsReScan what force, s =>
    match s.phase with
    | .idle => some (needsReScan s what force)
    | _ => none
  | .loadResources, s =>
    match s.phase, readConfig s.file (openGetter s.getter) with
    | .asked what, .running (some content) =>
      some { s with
        getter := .running (some content)
        values := Function.update s.values (some what) (some (eval (some what) content))
        phase := .idle }
    | _, _ => none
  | .gErr freed, s =>
    match s.phase with
    | .asked what =>
      some { s with
        getter := .broken
        values := if freed then Function.update s.values (some what) none else s.values
        phase := .idle }
    | _ => none
  | .openGetter, s =>
    match s.phase with
    | .idle => some { s with getter := openGetter s.getter }
    | _ => none
  | .getDeps, s =>
    match s.phase, readConfig s.file (openGetter s.getter) with
    | .idle, .running (some content) =>
      some { s with getter := .running (some content), phase := .named (eval none content) }
    | _, _ => none
  | .mTime, s =>
    match s.phase with
    | .named names =>
      some { s with
        dep := Function.update s.dep none (some s.file.mtime)
        values := Function.update s.values none (some names)
        phase := .idle }
    | _ => none
  | .closeGetter, s =>
    match s.phase with
    | .idle => some { s with getter := .closed }
    | _ => none

def Start (s : State κ γ β) : Prop :=
  s.getter = .closed ∧ (∀ k, s.dep k = none) ∧ s.phase = .idle

/-- **The property**: what was noted with the time of the file was loaded from the file. -/
def Current (eval : Option κ → γ → β) (s : State κ γ β) : Prop :=
  s.phase = .idle → ∀ k, s.dep k = some s.file.mtime → s.values k = some (eval k s.file.content)

/-- What the reader has read gives the values of the file. -/
def UpToDate (eval : Option κ → γ → β) (s : State κ γ β) (what : κ) : Prop :=
  ∀ content, s.getter = .running (some content) →
    eval (some what) content = eval (some what) s.file.content

/-- **The condition**: a request finds a reader that has not read the file or would read the same,
names are noted with the time of the file that they are from, no request for the file as it is
fails, and no edit brings back a time that is noted. -/
def Calm [DecidableEq κ] (eval : Option κ → γ → β) (s : State κ γ β) : Event κ γ → Prop
  | .edit file => ∀ k, s.dep k ≠ some file.mtime
  | .needsReScan what force => (needsReScan s what force).phase = .asked what → UpToDate eval s what
  | .gErr _ => ∀ what, s.phase = .asked what → s.dep (some what) ≠ some s.file.mtime
  | .mTime => ∀ names, s.phase = .named names → names = eval none s.file.content
  | _ => True

variable {eval : Option κ → γ → β} {s s' : State κ γ β}

/-! ## Runs -/

/-- **The invariant**: the values that are not being asked for are current, and the reader has not
read another file than the one whose time was noted for those that are. -/
structure Inv (eval : Option κ → γ → β) (s : State κ γ β) : Prop where
  values : ∀ k, (∀ what, s.phase = .asked what → k ≠ some what) → s.dep k = some s.file.mtime →
    s.values k = some (eval k s.file.content)
  asked : ∀ what, s.phase = .asked what → s.dep (some what) = some s.file.mtime →
    UpToDate eval s what

namespace Inv

/-- Without a request the values are current, and the reader does not matter. -/
theorem idle (h : Inv eval s) (hn : s.phase = .idle) (getter : Reader γ) {phase : Phase κ β}
    (hp : ∀ what, phase ≠ .asked what) : Inv eval { s with getter, phase } where
  values := by
    intro k _ hd
    apply h.values k _ hd
    intro what hw
    rw [hn] at hw
    cases hw
  asked := fun what hw => absurd hw (hp what)

/-- The values of the other dependencies stay current when a request ends. -/
theorem other {what : κ} (h : Inv eval s) (hs : s.phase = .asked what) {k : Option κ}
    (hk : k ≠ some what) (hd : s.dep k = some s.file.mtime) :
    s.values k = some (eval k s.file.content) := by
  apply h.values k _ hd
  intro what' hw
  rw [hs] at hw
  cases hw
  exact hk

end Inv

/-- A time that is not noted is that of no values. -/
theorem inv_edit {file : File γ} (hc : ∀ k, s.dep k ≠ some file.mtime) :
    Inv eval { s with file } where
  values := fun k _ hd => absurd hd (hc k)
  asked := fun what _ hd => absurd hd (hc (some what))

/-- A reader that has just been asked to read reads the file, unless it has read before. -/
theorem readConfig_cases {file : File γ} {getter : Reader γ} {content : γ}
    (h : readConfig file (openGetter getter) = .running (some content)) :
    content = file.content ∨ getter = .running (some content) := by
  cases getter with
  | closed =>
    cases h
    exact .inl rfl
  | broken => cases h
  | running confread =>
    cases confread with
    | none =>
      cases h
      exact .inl rfl
    | some c =>
      cases h
      exact .inr rfl

variable [DecidableEq κ]

theorem needsReScan_asked (s : State κ γ β) (what : κ) (force : Bool) :
    (needsReScan s what force).phase = .asked what ∨ needsReScan s what force = s := by
  unfold needsReScan
  split
  · exact .inl rfl
  · split
    · exact .inl rfl
    · exact .inr rfl

theorem needsReScan_dep (s : State κ γ β) {what : κ} (force : Bool) {k : Option κ}
    (hk : k ≠ some what) : (needsReScan s what force).dep k = s.dep k := by
  unfold needsReScan
  split
  · exact Function.update_of_ne hk _ _
  · split
    · rfl
    · rfl

theorem needsReScan_frame (s : State κ γ β) (what : κ) (force : Bool) :
    (needsReScan s what force).file = s.file ∧ (needsReScan s what force).getter = s.getter ∧
      (needsReScan s what force).values = s.values := by
  unfold needsReScan
  split
  · exact ⟨rfl, rfl, rfl⟩
  · split
    · exact ⟨rfl, rfl, rfl⟩
    · exact ⟨rfl, rfl, rfl⟩

namespace Inv

theorem needsReScan (h : Inv eval s) {what : κ} {force : Bool} (hn : s.phase = .idle)
    (hc : (needsReScan s what force).phase = .asked what → UpToDate eval s what) :
    Inv eval (needsReScan s what force) := by
  obtain ⟨hfile, hgetter, hvalues⟩ := needsReScan_frame s what force
  rcases needsReScan_asked s what force with hasked | hsame
  · refine ⟨fun k hk hd => ?_, fun k hk _ content hg => ?_⟩
    · rw [needsReScan_dep s force (hk what hasked), hfile] at hd
      rw [hvalues, hfile]
      apply h.values k _ hd
      intro what' hw
      rw [hn] at hw
      cases hw
    · rw [hasked] at hk
      cases hk
      rw [hgetter] at hg
      rw [hfile]
      exact hc hasked content hg
  · rw [hsame]
    exact h

theorem loadResources {what : κ} {content : γ} (h : Inv eval s) (hs : s.phase = .asked what)
    (hr : readConfig s.file (openGetter s.getter) = .running (some content)) :
    Inv eval { s with
      getter := .running (some content)
      values := Function.update s.values (some what) (some (eval (some what) content))
      phase := .idle } where
  values := by
    intro k _ hd
    dsimp only at hd ⊢
    by_cases hk : k = some what
    · subst hk
      rw [Function.update_self]
      rcases readConfig_cases hr with rfl | hg
      · rfl
      · rw [h.asked what hs hd content hg]
    · rw [Function.update_of_ne hk]
      exact h.other hs hk hd
  asked := nofun

theorem gErr {what : κ} {freed : Bool} (h : Inv eval s) (hs : s.phase = .asked what)
    (hc : s.dep (some what) ≠ some s.file.mtime) :
    Inv eval { s with
      getter := .broken
      values := if freed then Function.update s.values (some what) none else s.values
      phase := .idle } where
  values := by
    intro k _ hd
    dsimp only at hd ⊢
    have hk : k ≠ some what := by
      rintro rfl
      exact hc hd
    split
    · rw [Function.update_of_ne hk]
      exact h.other hs hk hd
    · exact h.other hs hk hd
  asked := nofun

theorem mTime {names : β} (h : Inv eval s) (hs : s.phase = .named names)
    (hc : names = eval none s.file.content) :
    Inv eval { s with
      dep := Function.update s.dep none (some s.file.mtime)
      values := Function.update s.values none (some names)
      phase := .idle } where
  values := by
    intro k _ hd
    dsimp only at hd ⊢
    cases k with
    | none =>
      rw [Function.update_self, hc]
    | some what =>
      rw [Function.update_of_ne (Option.some_ne_none what)] at hd ⊢
      apply h.values _ _ hd
      intro what' hw
      rw [hs] at hw
      cases hw
  asked := nofun

theorem step {e : Event κ γ} (h : Inv eval s) (hc : Calm eval s e)
    (he : Updates.step eval e s = some s') : Inv eval s' := by
  cases e with
  | edit file =>
    dsimp only [Updates.step] at he
    split at he
    · cases he
      exact inv_edit hc
    · cases he
  | needsReScan what force =>
    dsimp only [Updates.step] at he
    split at he
    · rename_i hn
      cases he
      exact h.needsReScan hn hc
    · cases he
  | loadResources =>
    dsimp only [Updates.step] at he
    split at he
    · rename_i what content hs hr
      cases he
      exact h.loadResources hs hr
    · cases he
  | gErr freed =>
    dsimp only [Updates.step] at he
    split at he
    · rename_i what hs
      cases he
      exact h.gErr hs (hc what hs)
    · cases he
  | openGetter =>
    dsimp only [Updates.step] at he
    split at he
    · rename_i hn
      cases he
      have hi : Inv eval { s with getter := Updates.openGetter s.getter, phase := .idle } :=
        h.idle hn _ nofun
      rw [← hn] at hi
      exact hi
    · cases he
  | getDeps =>
    dsimp only [Updates.step] at he
    split at he
    · rename_i content hn hr
      cases he
      exact h.idle hn _ nofun
    · cases he
  | mTime =>
    dsimp only [Updates.step] at he
    split at he
    · rename_i names hs
      cases he
      exact h.mTime hs (hc names hs)
    · cases he
  | closeGetter =>
    dsimp only [Updates.step] at he
    split at he
    · rename_i hn
      cases he
      have hi : Inv eval { s with getter := .closed, phase := .idle } := h.idle hn _ nofun
      rw [← hn] at hi
      exact hi
    · cases he

end Inv

/-- **No update is lost** in a run in which the reader is up to date when it is asked. -/
theorem current_of_reaches (h : Reaches (step eval) Start (Calm eval) s) : Current eval s := by
  have hinv : Inv eval s := by
    refine h.invariant ?_ fun s e s' hi hc he => hi.step hc he
    rintro s ⟨_, hd, hn⟩
    refine ⟨fun k _ hk => ?_, fun what hw => ?_⟩
    · rw [hd k] at hk
      cases hk
    · rw [hn] at hw
      cases hw
  intro hn k hd
  apply hinv.values k _ hd
  intro what hw
  rw [hn] at hw
  cases hw

/-- **A request that is answered at once** is answered with the values of the file exactly when the
reader is up to date. -/
theorem current_answer_iff {what : κ} {force : Bool}
    (hs : (needsReScan s what force).phase = .asked what)
    (he : step eval .loadResources (needsReScan s what force) = some s') :
    s'.values (some what) = some (eval (some what) s'.file.content) ↔ UpToDate eval s what := by
  obtain ⟨hfile, hgetter, _⟩ := needsReScan_frame s what force
  dsimp only [step] at he
  rw [hs, hfile, hgetter] at he
  unfold UpToDate
  cases hg : s.getter with
  | closed =>
    rw [hg] at he
    cases he
    simp
  | broken =>
    rw [hg] at he
    cases he
  | running confread =>
    rw [hg] at he
    cases confread with
    | none =>
      cases he
      simp
    | some content =>
      cases he
      simp

namespace Sample

/-- The values are the file, for everything. -/
def whole (_ : Option Bool) (content : Nat) : Nat := content

def start : State Bool Nat Nat := ⟨⟨0, 1⟩, .closed, fun _ => none, fun _ => none, .idle⟩

theorem start_start : Start start := ⟨rfl, fun _ => rfl, rfl⟩

/-- The file is edited between two requests to one reader. -/
def between : List (Event Bool Nat) :=
  [.needsReScan false false, .loadResources, .edit ⟨7, 2⟩, .needsReScan true false, .loadResources]

end Sample

/-- The reader is closed before the file is edited. -/
theorem current_rounds : ∃ s : State Bool Nat Nat, s.file = ⟨7, 2⟩ ∧ s.values (some true) = some 7 ∧
    Current Sample.whole s := by
  have h0 : Reaches (step Sample.whole) Start (Calm Sample.whole) Sample.start :=
    ⟨[], .start Sample.start_start⟩
  have h1 := h0.next (e := .needsReScan false false) (by intro _ _ hg; cases hg) rfl
  have h2 := h1.next (e := .loadResources) (by exact trivial) rfl
  have h3 := h2.next (e := .closeGetter) (by exact trivial) rfl
  have h4 := h3.next (e := .edit ⟨7, 2⟩) (by rintro (_ | _ | _) <;> decide) rfl
  have h5 := h4.next (e := .needsReScan true false) (by intro _ _ hg; cases hg) rfl
  have h6 := h5.next (e := .loadResources) (by exact trivial) rfl
  exact ⟨_, rfl, rfl, current_of_reaches h6⟩

/-- The second request notes the new time and gets the old values. -/
theorem not_current : ¬ ∀ s : State Bool Nat Nat,
    Reaches (step Sample.whole) Start (fun _ _ => True) s → Current Sample.whole s := by
  intro h
  obtain ⟨s, hs⟩ : ∃ s, exec (step Sample.whole) (fun _ _ => true) Sample.between Sample.start =
    some s := ⟨_, rfl⟩
  have hc := h s (Reaches.exec (fun _ _ _ => trivial) ⟨[], .start Sample.start_start⟩ hs)
  cases hs
  exact absurd (hc rfl (some true) rfl) (by decide)

end Kdm.Getter.Updates
