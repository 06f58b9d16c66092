import Mathlib.Data.List.Basic
import Mathlib.Data.Nat.Find

/-!
# Installing a configuration

`secureCopy` of `kcm/helper.cpp` once more, now with everything that may fail on the way: the
destination is emptied when it is opened, and is filled block by block.  A read gives an empty block
if it fails; a write tells how much it took; what is buffered is written when the file is closed.

* `copy` — the loop.  It may go on forever, so it is given a number of turns.
* `secureCopy`, `save` — the copy, and the action that makes two of them.
* `AllOrNothing` — what a copy should be.
* `Harmless` — nothing fails behind the point where the destination is opened.

Principal result: `allOrNothing_iff`.
-/

namespace Kdm.Install

abbrev Bytes := List UInt8

/-- The files that there are, with their contents; paths of one file are one. -/
abbrev Store (File : Type) := File → Option Bytes

variable {File : Type} [DecidableEq File]

def Store.set (s : Store File) (file : File) (content : Bytes) : Store File :=
  fun f => if f = file then some content else s f

/-- What happens to a copy from outside. -/
structure Faults where
  /-- the source can be opened -/
  srcOpens : Bool
  /-- `permissions() & QFile::ReadOther` -/
  readOther : Bool
  dstOpens : Bool
  /-- how many bytes a read gives at most: none, if it fails -/
  read : Nat → Nat
  /-- how many bytes a write takes at most; `none` for `-1` -/
  write : Nat → Option Nat
  /-- the last bytes that the final flush does not write -/
  lost : Nat
  /-- `setPermissions` -/
  chmod : Bool

def maxBlockSize : Nat := 102400

/-- The block that the next read gives. -/
def nextBlock (flt : Faults) (c : Bytes) (i pos : Nat) : Bytes :=
  (c.drop pos).take (min (flt.read i) maxBlockSize)

/-- The loop, from a turn and a position in the source on. -/
def copy (flt : Faults) (src dst : File) :
    Nat → Nat → Nat → Store File → Option (Bool × Store File)
  | fuel, i, pos, s =>
    let c := (s src).getD []
    if c.length ≤ pos then some (true, s)
    else
      match fuel with
      | 0 => none
      | fuel + 1 =>
        let block := nextBlock flt c i pos
        match flt.write i with
        | none => some (false, s)
        | some n =>
          copy flt src dst fuel (i + 1) (pos + block.length)
            (s.set dst ((s dst).getD [] ++ block.take n))

/-- What the destructor of the destination makes of it. -/
def close (flt : Faults) (dst : File) (s : Store File) : Store File :=
  let c := (s dst).getD []
  s.set dst (c.take (c.length - flt.lost))

def secureCopy (flt : Faults) (src dst : File) (fuel : Nat) (s : Store File) :
    Option (Bool × Store File) :=
  if (s src).isNone || ! flt.srcOpens then some (false, s)
  else if ! flt.readOther then some (false, s)
  else if ! flt.dstOpens then some (false, s)
  else
    match copy flt src dst fuel 0 0 (s.set dst []) with
    | none => none
    | some (false, s) => some (false, close flt dst s)
    | some (true, s) => some (flt.chmod, close flt dst s)

/-- `Helper::save`, up to the reply: the code of the error. -/
def save (flt flt' : Faults) (tempConfig systemConfig tempBackground systemBackground : File)
    (fuel : Nat) (s : Store File) : Option (Nat × Store File) :=
  match secureCopy flt tempConfig systemConfig fuel s with
  | none => none
  | some (ok, s) =>
    match secureCopy flt' tempBackground systemBackground fuel s with
    | none => none
    | some (ok', s) => some ((if ok then 0 else 1) ||| (if ok' then 0 else 2), s)

/-! ## The property -/

/-- **The property**: the copy comes to an end, and the destination has the content of the source if it
succeeds, and its own one if it fails. -/
def AllOrNothing (flt : Faults) (src dst : File) (s : Store File) : Prop :=
  ∃ fuel ok s', secureCopy flt src dst fuel s = some (ok, s') ∧
    s' dst = if ok then s src else s dst

/-- The bytes that were read before a turn, and those of them that were taken. -/
def progress (flt : Faults) (c : Bytes) : Nat → Nat × Bytes
  | 0 => (0, [])
  | i + 1 =>
    let p := progress flt c i
    let block := nextBlock flt c i p.1
    (p.1 + block.length, p.2 ++ block.take ((flt.write i).getD 0))

/-- Up to a turn there is something to read, and no write fails. -/
def Goes (flt : Faults) (c : Bytes) (n : Nat) : Prop :=
  ∀ i < n, (progress flt c i).1 < c.length ∧ flt.write i ≠ none

/-- The reads come to the end of the source before a turn. -/
def EndsAt (flt : Faults) (c : Bytes) (n : Nat) : Prop :=
  Goes flt c n ∧ c.length ≤ (progress flt c n).1

/-- A write fails in a turn, the first one. -/
def FailsAt (flt : Faults) (c : Bytes) (n : Nat) : Prop :=
  Goes flt c n ∧ (progress flt c n).1 < c.length ∧ flt.write n = none

/-- All that the reads gave before a turn was taken. -/
def AllTaken (flt : Faults) (c : Bytes) (n : Nat) : Prop :=
  ∀ i < n, ∀ k, flt.write i = some k → (nextBlock flt c i (progress flt c i).1).length ≤ k

/-- The destination is opened. -/
def Opened (flt : Faults) (src : File) (s : Store File) : Prop :=
  (s src).isSome = true ∧ flt.srcOpens = true ∧ flt.readOther = true ∧ flt.dstOpens = true

/-- What is in the file when it is closed, of the bytes taken before a turn. -/
def left (flt : Faults) (c : Bytes) (n : Nat) : Bytes :=
  (progress flt c n).2.take ((progress flt c n).2.length - flt.lost)

/-- Nothing fails: the reads come to the end, the writes take all, and the destructor writes all. -/
def Complete (flt : Faults) (c : Bytes) : Prop :=
  flt.chmod = true ∧ ∃ n, EndsAt flt c n ∧ AllTaken flt c n ∧ (c = [] ∨ flt.lost = 0)

/-- A write fails, or the change of the permissions; by chance the destination had just what was written
until then. -/
def ByChance (flt : Faults) (c : Bytes) (former : Option Bytes) : Prop :=
  ∃ n, (FailsAt flt c n ∨ EndsAt flt c n ∧ flt.chmod = false) ∧ former = some (left flt c n)

/-- **The condition**: the destination is not opened, or it is the source, which is empty; otherwise
nothing fails from there on, or the destination is as it was by chance. -/
def Harmless (flt : Faults) (src dst : File) (s : Store File) : Prop :=
  ¬ Opened flt src s ∨ (src = dst ∧ s src = some []) ∨
    (src ≠ dst ∧ ∃ c, s src = some c ∧ (Complete flt c ∨ ByChance flt c (s dst)))

/-! ## The blocks -/

variable {flt : Faults} {src dst : File} {s s' : Store File} {c : Bytes} {n fuel i pos : Nat} {ok : Bool}

@[simp] theorem set_self (s : Store File) (file : File) (content : Bytes) :
    s.set file content file = some content := if_pos rfl

theorem set_of_ne {file other : File} (h : other ≠ file) (s : Store File) (content : Bytes) :
    s.set file content other = s other := if_neg h

@[simp] theorem set_set (s : Store File) (file : File) (content content' : Bytes) :
    (s.set file content).set file content' = s.set file content' := by
  funext f
  unfold Store.set
  split <;> rfl

theorem length_nextBlock (flt : Faults) (c : Bytes) (i pos : Nat) :
    (nextBlock flt c i pos).length ≤ c.length - pos := by
  unfold nextBlock
  rw [List.length_take, List.length_drop]
  exact Nat.min_le_right _ _

theorem nextBlock_eq (flt : Faults) (c : Bytes) (i pos : Nat) :
    nextBlock flt c i pos = (c.drop pos).take (nextBlock flt c i pos).length := by
  unfold nextBlock
  rw [List.take_eq_take_iff, List.length_take]
  omega

theorem progress_le (flt : Faults) (c : Bytes) (n : Nat) : (progress flt c n).1 ≤ c.length := by
  induction n with
  | zero => exact Nat.zero_le _
  | succ n ih =>
    have := length_nextBlock flt c n (progress flt c n).1
    dsimp only [progress]
    omega

theorem length_taken (flt : Faults) (c : Bytes) (n : Nat) :
    (progress flt c n).2.length ≤ (progress flt c n).1 := by
  induction n with
  | zero => exact Nat.le_refl _
  | succ n ih =>
    dsimp only [progress]
    rw [List.length_append, List.length_take]
    omega

theorem taken_of_allTaken (hg : Goes flt c n) (ht : AllTaken flt c n) :
    (progress flt c n).2 = c.take (progress flt c n).1 := by
  induction n with
  | zero => rfl
  | succ n ih =>
    have ih := ih (fun i hi => hg i (Nat.lt_succ_of_lt hi)) fun i hi => ht i (Nat.lt_succ_of_lt hi)
    obtain ⟨k, hk⟩ := Option.ne_none_iff_exists'.mp (hg n (Nat.lt_succ_self n)).2
    have hblock := ht n (Nat.lt_succ_self n) k hk
    dsimp only [progress]
    rw [hk, Option.getD_some, List.take_of_length_le hblock, ih, List.take_add, ← nextBlock_eq]

/-- If a write took less than it should, something is missing at the end. -/
theorem allTaken_of_length (hg : Goes flt c n)
    (hlen : (progress flt c n).1 ≤ (progress flt c n).2.length) : AllTaken flt c n := by
  induction n with
  | zero => exact fun i hi => absurd hi (Nat.not_lt_zero i)
  | succ n ih =>
    obtain ⟨k, hk⟩ := Option.ne_none_iff_exists'.mp (hg n (Nat.lt_succ_self n)).2
    have hle := length_taken flt c n
    dsimp only [progress] at hlen
    rw [hk, Option.getD_some, List.length_append, List.length_take] at hlen
    have ih := ih (fun i hi => hg i (Nat.lt_succ_of_lt hi)) (by omega)
    intro i hi k' hk'
    obtain hlt | rfl := Nat.lt_succ_iff_lt_or_eq.mp hi
    · exact ih i hlt k' hk'
    · rw [hk] at hk'
      cases hk'
      omega

/-- Exactly without a fault the destination has the content of the source at the end. -/
theorem left_eq_iff (he : EndsAt flt c n) :
    left flt c n = c ↔ AllTaken flt c n ∧ (c = [] ∨ flt.lost = 0) := by
  have hend := Nat.le_antisymm (progress_le flt c n) he.2
  have hle := length_taken flt c n
  constructor
  · intro h
    have hlen := congrArg List.length h
    rw [left, List.length_take] at hlen
    refine ⟨allTaken_of_length he.1 (by omega), ?_⟩
    by_cases hc : c = []
    · exact Or.inl hc
    · have := List.length_pos_of_ne_nil hc
      exact Or.inr (by omega)
  · rintro ⟨ht, hlost⟩
    rw [left, taken_of_allTaken he.1 ht, hend, List.take_length]
    obtain rfl | hlost := hlost
    · exact List.take_nil
    · rw [hlost, Nat.sub_zero, List.take_length]

/-- The reads come to the end, or a write fails, or the loop goes on forever. -/
theorem ends_or_fails (flt : Faults) (c : Bytes) :
    (∃ n, EndsAt flt c n) ∨ (∃ n, FailsAt flt c n) ∨ ∀ n, Goes flt c n := by
  classical
  by_cases h : ∃ n, ¬ ((progress flt c n).1 < c.length ∧ flt.write n ≠ none)
  · have hgoes : Goes flt c (Nat.find h) := fun i hi => not_not.mp (Nat.find_min h hi)
    by_cases hend : c.length ≤ (progress flt c (Nat.find h)).1
    · exact Or.inl ⟨_, hgoes, hend⟩
    · have hmore := Nat.not_le.mp hend
      have hwrite := (not_and.mp (Nat.find_spec h)) hmore
      exact Or.inr (Or.inl ⟨_, hgoes, hmore, not_not.mp hwrite⟩)
  · exact Or.inr (Or.inr fun n i _ => by_contra fun hi => h ⟨i, hi⟩)

/-! ## The loop -/

/-- The files before a turn. -/
def before (flt : Faults) (dst : File) (s : Store File) (c : Bytes) (n : Nat) : Store File :=
  s.set dst (progress flt c n).2

theorem before_src (hne : src ≠ dst) (hc : s src = some c) (n : Nat) :
    before flt dst s c n src = some c := (set_of_ne hne s _).trans hc

theorem copy_atEnd (h : ((s src).getD []).length ≤ pos) (fuel : Nat) :
    copy flt src dst fuel i pos s = some (true, s) := by
  unfold copy
  exact if_pos h

theorem copy_zero (h : ¬ ((s src).getD []).length ≤ pos) :
    copy flt src dst 0 i pos s = none := by
  unfold copy
  exact if_neg h

theorem copy_succ (h : ¬ ((s src).getD []).length ≤ pos) (fuel : Nat) :
    copy flt src dst (fuel + 1) i pos s =
      match flt.write i with
      | none => some (false, s)
      | some n =>
        let block := nextBlock flt ((s src).getD []) i pos
        copy flt src dst fuel (i + 1) (pos + block.length)
          (s.set dst ((s dst).getD [] ++ block.take n)) := by
  conv_lhs => rw [copy]
  exact if_neg h

theorem copy_turn (hne : src ≠ dst) (hc : s src = some c)
    (hmore : (progress flt c n).1 < c.length) (hwrite : flt.write n ≠ none) (fuel : Nat) :
    copy flt src dst (fuel + 1) n (progress flt c n).1 (before flt dst s c n) =
      copy flt src dst fuel (n + 1) (progress flt c (n + 1)).1 (before flt dst s c (n + 1)) := by
  obtain ⟨k, hk⟩ := Option.ne_none_iff_exists'.mp hwrite
  have hsrc : before flt dst s c n src = some c := before_src hne hc n
  rw [copy_succ (by rw [hsrc]; exact Nat.not_le.mpr hmore), hsrc, hk]
  simp only [before, set_self, set_set, Option.getD_some, progress, hk]

theorem copy_goes (hne : src ≠ dst) (hc : s src = some c) (hg : Goes flt c n) (fuel : Nat) :
    copy flt src dst (fuel + n) 0 0 (s.set dst []) =
      copy flt src dst fuel n (progress flt c n).1 (before flt dst s c n) := by
  induction n generalizing fuel with
  | zero => rfl
  | succ n ih =>
    have hn := hg n (Nat.lt_succ_self n)
    rw [← Nat.add_assoc, Nat.add_right_comm, ih (fun i hi => hg i (Nat.lt_succ_of_lt hi)),
      copy_turn hne hc hn.1 hn.2]

theorem copy_ends (hne : src ≠ dst) (hc : s src = some c) (he : EndsAt flt c n) (fuel : Nat) :
    copy flt src dst (fuel + n) 0 0 (s.set dst []) = some (true, before flt dst s c n) := by
  rw [copy_goes hne hc he.1]
  exact copy_atEnd (by rw [before_src hne hc]; exact he.2) fuel

theorem copy_fails (hne : src ≠ dst) (hc : s src = some c) (hf : FailsAt flt c n) (fuel : Nat) :
    copy flt src dst (fuel + 1 + n) 0 0 (s.set dst []) = some (false, before flt dst s c n) := by
  rw [copy_goes hne hc hf.1,
    copy_succ (by rw [before_src hne hc]; exact Nat.not_le.mpr hf.2.1), hf.2.2]

theorem copy_forever (hne : src ≠ dst) (hc : s src = some c) (hg : ∀ n, Goes flt c n) (fuel : Nat) :
    copy flt src dst fuel 0 0 (s.set dst []) = none := by
  have hmore := (hg (fuel + 1) fuel (Nat.lt_succ_self fuel)).1
  rw [← Nat.zero_add fuel, copy_goes hne hc (hg fuel)]
  exact copy_zero (by rw [before_src hne hc]; exact Nat.not_le.mpr hmore)

/-- A file that is copied onto itself is empty when the loop begins. -/
theorem copy_self (s : Store File) (fuel : Nat) :
    copy flt src src fuel 0 0 (s.set src []) = some (true, s.set src []) :=
  copy_atEnd (by rw [set_self]; exact Nat.le_refl 0) fuel

/-! ## The copy -/

theorem secureCopy_closed (ho : ¬ Opened flt src s) (dst : File) (fuel : Nat) :
    secureCopy flt src dst fuel s = some (false, s) := by
  unfold secureCopy
  by_cases h1 : ((s src).isNone || ! flt.srcOpens) = true
  · rw [if_pos h1]
  by_cases h2 : (! flt.readOther) = true
  · rw [if_neg h1, if_pos h2]
  by_cases h3 : (! flt.dstOpens) = true
  · rw [if_neg h1, if_neg h2, if_pos h3]
  · refine absurd ⟨?_, ?_, ?_, ?_⟩ ho
    · cases hs : s src <;> simp_all
    all_goals simp_all

theorem secureCopy_opened (ho : Opened flt src s) (dst : File) (fuel : Nat) :
    secureCopy flt src dst fuel s =
      (copy flt src dst fuel 0 0 (s.set dst [])).map fun r =>
        (r.1 && flt.chmod, close flt dst r.2) := by
  obtain ⟨hsrc, h1, h2, h3⟩ := ho
  have hnone : (s src).isNone = false := by
    cases hs : s src with
    | none => rw [hs] at hsrc; cases hsrc
    | some c => rfl
  unfold secureCopy
  rw [hnone, h1, h2, h3]
  cases copy flt src dst fuel 0 0 (s.set dst []) with
  | none => rfl
  | some r =>
    obtain ⟨ok, s'⟩ := r
    cases ok <;> rfl

theorem close_before (flt : Faults) (dst : File) (s : Store File) (c : Bytes) (n : Nat) :
    close flt dst (before flt dst s c n) dst = some (left flt c n) := by
  unfold close before
  rw [set_self, set_self]
  rfl

/-- More turns do not change what a copy comes to. -/
theorem copy_more (h : copy flt src dst fuel i pos s = some (ok, s')) :
    copy flt src dst (fuel + 1) i pos s = some (ok, s') := by
  induction fuel generalizing i pos s with
  | zero =>
    by_cases hend : ((s src).getD []).length ≤ pos
    · rw [copy_atEnd hend] at h ⊢
      exact h
    · rw [copy_zero hend] at h
      cases h
  | succ fuel ih =>
    by_cases hend : ((s src).getD []).length ≤ pos
    · rw [copy_atEnd hend] at h ⊢
      exact h
    · rw [copy_succ hend] at h ⊢
      split at h
      · exact h
      · exact ih h

theorem secureCopy_more (h : secureCopy flt src dst fuel s = some (ok, s')) (more : Nat) :
    secureCopy flt src dst (fuel + more) s = some (ok, s') := by
  induction more with
  | zero => exact h
  | succ more ih =>
    by_cases ho : Opened flt src s
    · rw [secureCopy_opened ho] at ih ⊢
      obtain ⟨⟨ok', s''⟩, hr, he⟩ := Option.map_eq_some_iff.mp ih
      rw [← Nat.add_assoc, copy_more hr]
      exact congrArg some he
    · rw [secureCopy_closed ho] at ih ⊢
      exact ih

/-- The number of turns does not matter. -/
theorem secureCopy_unique {fuel' : Nat} {r r' : Bool × Store File}
    (h : secureCopy flt src dst fuel s = some r) (h' : secureCopy flt src dst fuel' s = some r') :
    r = r' := by
  have h := secureCopy_more h fuel'
  have h' := secureCopy_more h' fuel
  rw [Nat.add_comm, h] at h'
  exact Option.some.inj h'

theorem secureCopy_ends (ho : Opened flt src s) (hne : src ≠ dst) (hc : s src = some c)
    (he : EndsAt flt c n) : secureCopy flt src dst n s =
      some (flt.chmod, close flt dst (before flt dst s c n)) := by
  have h := copy_ends hne hc he 0
  rw [Nat.zero_add] at h
  rw [secureCopy_opened ho, h]
  rfl

theorem secureCopy_fails (ho : Opened flt src s) (hne : src ≠ dst) (hc : s src = some c)
    (hf : FailsAt flt c n) : secureCopy flt src dst (0 + 1 + n) s =
      some (false, close flt dst (before flt dst s c n)) := by
  rw [secureCopy_opened ho, copy_fails hne hc hf 0]
  rfl

theorem allOrNothing_self (ho : Opened flt src s) :
    AllOrNothing flt src src s ↔ s src = some [] := by
  have hr : ∀ fuel, secureCopy flt src src fuel s =
      some (flt.chmod, close flt src (s.set src [])) := by
    intro fuel
    rw [secureCopy_opened ho, copy_self]
    rfl
  have hempty : close flt src (s.set src []) src = some [] := by
    unfold close
    rw [set_self, set_self, Option.getD_some, List.take_nil]
  constructor
  · rintro ⟨fuel, ok, s', h, hdst⟩
    rw [hr] at h
    cases h
    rw [hempty, ite_self] at hdst
    exact hdst.symm
  · intro h
    refine ⟨0, _, _, hr 0, ?_⟩
    rw [hempty, ite_self, h]

theorem allOrNothing_opened (ho : Opened flt src s) (hne : src ≠ dst) (hc : s src = some c) :
    AllOrNothing flt src dst s ↔ Complete flt c ∨ ByChance flt c (s dst) := by
  constructor
  · rintro ⟨fuel, ok, s', h, hdst⟩
    obtain ⟨n, he⟩ | ⟨n, hf⟩ | hg := ends_or_fails flt c
    · cases secureCopy_unique h (secureCopy_ends ho hne hc he)
      rw [close_before] at hdst
      cases hchmod : flt.chmod with
      | true =>
        rw [hchmod, if_pos rfl, hc, Option.some.injEq, left_eq_iff he] at hdst
        exact Or.inl ⟨hchmod, n, he, hdst⟩
      | false =>
        rw [hchmod, if_neg Bool.false_ne_true] at hdst
        exact Or.inr ⟨n, Or.inr ⟨he, hchmod⟩, hdst.symm⟩
    · cases secureCopy_unique h (secureCopy_fails ho hne hc hf)
      rw [close_before, if_neg Bool.false_ne_true] at hdst
      exact Or.inr ⟨n, Or.inl hf, hdst.symm⟩
    · rw [secureCopy_opened ho, copy_forever hne hc hg] at h
      cases h
  · rintro (⟨hchmod, n, he, hall⟩ | ⟨n, hf | ⟨he, hchmod⟩, hdst⟩)
    · refine ⟨n, _, _, secureCopy_ends ho hne hc he, ?_⟩
      rw [close_before, hchmod, if_pos rfl, hc, (left_eq_iff he).mpr hall]
    · refine ⟨_, _, _, secureCopy_fails ho hne hc hf, ?_⟩
      rw [close_before, if_neg Bool.false_ne_true, hdst]
    · refine ⟨n, _, _, secureCopy_ends ho hne hc he, ?_⟩
      rw [close_before, hchmod, if_neg Bool.false_ne_true, hdst]

theorem allOrNothing_iff_harmless (flt : Faults) (src dst : File) (s : Store File) :
    AllOrNothing flt src dst s ↔ Harmless flt src dst s := by
  unfold Harmless
  by_cases ho : Opened flt src s
  · rw [or_iff_right (not_not.mpr ho)]
    by_cases hne : src = dst
    · subst hne
      rw [allOrNothing_self ho]
      simp
    · obtain ⟨c, hc⟩ := Option.isSome_iff_exists.mp ho.1
      have hno : ¬ (src = dst ∧ s src = some []) := fun h => hne h.1
      rw [allOrNothing_opened ho hne hc, or_iff_right hno]
      constructor
      · exact fun h => ⟨hne, c, hc, h⟩
      · rintro ⟨-, c', hc', h⟩
        rw [hc] at hc'
        cases hc'
        exact h
  · exact iff_of_true ⟨0, false, s, secureCopy_closed ho dst 0, rfl⟩ (Or.inl ho)

/-! ## The action -/

/-- A copy leaves the other files alone. -/
theorem copy_frame {file : File} (hf : file ≠ dst)
    (h : copy flt src dst fuel i pos s = some (ok, s')) : s' file = s file := by
  induction fuel generalizing i pos s with
  | zero =>
    by_cases hend : ((s src).getD []).length ≤ pos
    · rw [copy_atEnd hend] at h
      cases h
      rfl
    · rw [copy_zero hend] at h
      cases h
  | succ fuel ih =>
    by_cases hend : ((s src).getD []).length ≤ pos
    · rw [copy_atEnd hend] at h
      cases h
      rfl
    · rw [copy_succ hend] at h
      split at h
      · cases h
        rfl
      · rw [ih h, set_of_ne hf]

theorem secureCopy_frame {file : File} (hf : file ≠ dst)
    (h : secureCopy flt src dst fuel s = some (ok, s')) : s' file = s file := by
  by_cases ho : Opened flt src s
  · rw [secureCopy_opened ho] at h
    obtain ⟨⟨ok', s''⟩, hr, he⟩ := Option.map_eq_some_iff.mp h
    cases he
    dsimp only
    unfold close
    rw [set_of_ne hf, copy_frame hf hr, set_of_ne hf]
  · rw [secureCopy_closed ho] at h
    cases h
    rfl

/-- The configuration is the old one or the new one, after an action whose first copy is harmless. -/
theorem save_config {flt' : Faults} {temp back : File} {code : Nat}
    (hh : Harmless flt src dst s) (hback : dst ≠ back)
    (hs : save flt flt' src dst temp back fuel s = some (code, s')) :
    s' dst = s dst ∨ s' dst = s src := by
  obtain ⟨fuel', ok', s₁', h', hdst⟩ := (allOrNothing_iff_harmless flt src dst s).mpr hh
  unfold save at hs
  cases h : secureCopy flt src dst fuel s with
  | none => rw [h] at hs; cases hs
  | some r =>
    obtain ⟨ok, s₁⟩ := r
    rw [h] at hs
    dsimp only at hs
    obtain ⟨hok, hs₁⟩ := Prod.mk.inj (secureCopy_unique h' h)
    rw [hok, hs₁] at hdst
    cases h₂ : secureCopy flt' temp back fuel s₁ with
    | none => rw [h₂] at hs; cases hs
    | some r =>
      obtain ⟨ok₂, s₂⟩ := r
      rw [h₂] at hs
      cases hs
      rw [secureCopy_frame hback h₂, hdst]
      cases ok with
      | true => exact Or.inr rfl
      | false => exact Or.inl rfl

/-- **Installs are all-or-nothing** exactly where nothing fails behind the opening of the destination, or
where that does not matter; and then an action leaves the old configuration or the new one. -/
theorem allOrNothing_iff (flt flt' : Faults) (src dst temp back : File) (s : Store File) :
    (AllOrNothing flt src dst s ↔ Harmless flt src dst s) ∧
      (Harmless flt src dst s → dst ≠ back → ∀ fuel code s',
        save flt flt' src dst temp back fuel s = some (code, s') → s' dst = s dst ∨ s' dst = s src) :=
  ⟨allOrNothing_iff_harmless flt src dst s, fun hh hback _ _ _ hs => save_config hh hback hs⟩

namespace Sample

/-- Nothing fails. -/
def fine : Faults := ⟨true, true, true, fun _ => 102400, fun _ => some 102400, 0, true⟩

/-- The disk is full. -/
def full : Faults := { fine with write := fun _ => none }

/-- A new configuration and an old one. -/
def files : Store Nat
  | 0 => some [110]
  | 1 => some [111]
  | _ => some []

/-- The files after an action. -/
def saved : Store Nat :=
  ((save fine fine 0 1 2 3 1 files).map Prod.snd).getD files

theorem files_harmless : Harmless fine 0 1 files := by
  refine Or.inr (Or.inr ⟨by decide, [110], rfl, Or.inl ⟨rfl, 1, ⟨fun i hi => ?_, by decide⟩,
    fun i hi k hk => ?_, Or.inr rfl⟩⟩)
  · obtain rfl := Nat.lt_one_iff.mp hi
    exact ⟨by decide, nofun⟩
  · obtain rfl := Nat.lt_one_iff.mp hi
    cases hk
    decide

end Sample

theorem install_sample : Sample.saved 1 = some [111] ∨ Sample.saved 1 = some [110] :=
  (allOrNothing_iff Sample.fine Sample.fine 0 1 2 3 Sample.files).2 Sample.files_harmless (by decide)
    1 0 Sample.saved rfl

/-- The old configuration is lost on a full disk. -/
theorem not_allOrNothing : ¬ ∀ (flt : Faults) (src dst : Nat) (s : Store Nat),
    AllOrNothing flt src dst s := by
  intro h
  have hr : (secureCopy Sample.full 0 1 1 Sample.files).map (fun r => (r.1, r.2 1)) =
      some (false, some []) := by decide
  obtain ⟨r, hr, he⟩ := Option.map_eq_some_iff.mp hr
  obtain ⟨fuel, ok, s', hs, hdst⟩ := h Sample.full 0 1 Sample.files
  obtain ⟨hok, hs'⟩ := Prod.mk.inj he
  rw [← secureCopy_unique hs hr] at hok hs'
  dsimp only at hok hs'
  rw [hs', hok] at hdst
  exact absurd hdst (by decide)

end Kdm.Install
