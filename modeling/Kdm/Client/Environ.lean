import Mathlib.Data.List.Nodup
import Mathlib.Data.List.TakeWhile
import Mathlib.Logic.Function.Basic
import Kdm.Printf.Format

/-!
# Environments

`util.c`: the environment of a process as an array of strings `NAME=value`, in the order in which
the names were set first.

* `getEnv`, `setEnv`, `putEnv` — the functions of the source; the answers of the allocations are
  arguments.
* `Op`, `run` — a sequence of calls.
* `Map` — what an environment is for: a value for each name.

Principal result: `environ_refines`, an environment is the map that the calls make, and has each name
once.
-/

namespace Kdm.Client

open Printf (Text str)

/-- `'='`. -/
def EQ : UInt8 := 61

/-- A null-terminated array of strings, or a null pointer. -/
abbrev StrArr := Option (List Text)

/-- What is in the array; nothing in a null pointer. -/
def strings (e : StrArr) : List Text := e.getD []

/-- `!memcmp(s, name, l) && s[l] == '='`: what is behind it. -/
def valueOf : Text → Text → Option Text
  | [], c :: v => if c = EQ then some v else none
  | a :: name, b :: s => if a = b then valueOf name s else none
  | _, [] => none

def getEnv (e : StrArr) (name : Text) : Option Text := (strings e).findSome? (valueOf name)

/-- The string that `setEnv` makes. -/
def entry (name value : Text) : Text := name ++ EQ :: value

/-- What `setEnv` overwrites: the name without a value, too. -/
def sets (name s : Text) : Bool := (valueOf name s).isSome || s = name

/-- The first string that is to be overwritten is. -/
def overwrite (name newe : Text) : List Text → Option (List Text)
  | [] => none
  | old :: e => if sets name old then some (newe :: e) else (overwrite name newe e).map (old :: ·)

/-- The answers to the allocations of a call: the name of `putEnv`, the string, the longer array. -/
structure Mem where
  strNDup : Bool
  strApp : Bool
  realloc : Bool

def setEnv (mem : Mem) (e : StrArr) (name value : Text) : StrArr :=
  if !mem.strApp then e
  else
    match overwrite name (entry name value) (strings e) with
    | some e' => some e'
    | none => if mem.realloc then some (strings e ++ [entry name value]) else e

/-- Without a `'='`, and without memory for the name, the environment is lost. -/
def putEnv (mem : Mem) (string : Text) (env : StrArr) : StrArr :=
  match string.dropWhile (· ≠ EQ) with
  | [] => none
  | _ :: value =>
    if !mem.strNDup then none else setEnv mem env (string.takeWhile (· ≠ EQ)) value

/-- A call. -/
inductive Op
  | set (name value : Text)
  | put (string : Text)

def Op.call (mem : Mem) (e : StrArr) : Op → StrArr
  | .set name value => setEnv mem e name value
  | .put string => putEnv mem string e

/-- The answers to all allocations. -/
abbrev Heap := Nat → Mem

def run (heap : Heap) : List Op → StrArr → StrArr
  | [], e => e
  | op :: ops, e => run (fun n => heap (n + 1)) ops (op.call (heap 0) e)

/-! ## One string -/

theorem valueOf_entry (name value : Text) : valueOf name (entry name value) = some value := by
  induction name with
  | nil => simp [entry, valueOf]
  | cons a name ih => simpa [entry, valueOf] using ih

theorem valueOf_eq_some {name s v : Text} (h : valueOf name s = some v) : s = entry name v := by
  induction name generalizing s with
  | nil =>
    cases s with
    | nil => cases h
    | cons c s =>
      rw [valueOf] at h
      split at h
      · rename_i hc
        cases h
        rw [hc]
        rfl
      · cases h
  | cons a name ih =>
    cases s with
    | nil => cases h
    | cons b s =>
      rw [valueOf] at h
      split at h
      · rename_i hab
        rw [hab, ih h]
        rfl
      · cases h

/-- The name in front of the first `'='`. -/
def nameOf (s : Text) : Text := s.takeWhile (· ≠ EQ)

theorem nameOf_entry {name : Text} (hn : EQ ∉ name) (value : Text) :
    nameOf (entry name value) = name := by
  unfold nameOf entry
  rw [List.takeWhile_append_of_pos]
  · simp
  · intro c hc
    simpa using ne_of_mem_of_not_mem hc hn

/-- A string has one name. -/
theorem valueOf_entry_ne {name name' : Text} (hn : EQ ∉ name) (hn' : EQ ∉ name') (hne : name' ≠ name)
    (value : Text) : valueOf name' (entry name value) = none := by
  rw [Option.eq_none_iff_forall_ne_some]
  intro v hv
  apply hne
  have h := congrArg nameOf (valueOf_eq_some hv)
  rw [nameOf_entry hn, nameOf_entry hn'] at h
  exact h.symm

theorem mem_nameOf (s : Text) : EQ ∉ nameOf s := by
  intro h
  simpa using List.mem_takeWhile_imp h

/-! ## The array -/

/-- Each string has a value, and each name is there once. -/
structure Sound (e : StrArr) : Prop where
  valued : ∀ s ∈ strings e, ∃ name value, EQ ∉ name ∧ s = entry name value
  nodup : ((strings e).map nameOf).Nodup

theorem Sound.empty : Sound none := ⟨nofun, List.nodup_nil⟩

variable {e : StrArr} {name name' value : Text}

theorem Sound.sets_iff (h : Sound e) (hn : EQ ∉ name) {s : Text} (hs : s ∈ strings e) :
    sets name s = true ↔ nameOf s = name := by
  obtain ⟨n, v, hn', rfl⟩ := h.valued s hs
  rw [nameOf_entry hn']
  unfold sets
  rw [Bool.or_eq_true, decide_eq_true_eq]
  constructor
  · intro hs
    obtain hs | hs := hs
    · by_contra hne
      rw [valueOf_entry_ne hn' hn (Ne.symm hne)] at hs
      cases hs
    · exact absurd (hs ▸ (by simp [entry] : EQ ∈ entry n v)) hn
  · rintro rfl
    left
    rw [valueOf_entry]
    rfl

/-- A value is found where the name is. -/
theorem Sound.getEnv_eq_some (h : Sound e) (hn : EQ ∉ name) :
    getEnv e name = some value ↔ entry name value ∈ strings e := by
  unfold getEnv
  constructor
  · intro hg
    obtain ⟨s, hs, hv⟩ := List.exists_of_findSome?_eq_some hg
    rwa [← valueOf_eq_some hv]
  · intro hs
    have hnd := h.nodup
    revert hnd hs
    generalize strings e = l
    intro hs hnd
    induction l with
    | nil => cases hs
    | cons s l ih =>
      rw [List.findSome?_cons]
      obtain rfl | hs := List.mem_cons.mp hs
      · rw [valueOf_entry]
      · rw [List.map_cons, List.nodup_cons] at hnd
        have hne : valueOf name s = none := by
          rw [Option.eq_none_iff_forall_ne_some]
          intro v hv
          apply hnd.1
          rw [valueOf_eq_some hv, nameOf_entry hn, ← nameOf_entry hn value]
          exact List.mem_map_of_mem hs
        rw [hne]
        exact ih hs hnd.2

theorem overwrite_eq_none {name newe : Text} {l : List Text} :
    overwrite name newe l = none ↔ ∀ s ∈ l, sets name s = false := by
  induction l with
  | nil => simp [overwrite]
  | cons s l ih =>
    rw [overwrite]
    split
    · rename_i hs
      simp [hs]
    · rename_i hs
      simpa [hs] using ih

/-- What is in the array behind a string that has been overwritten. -/
theorem overwrite_eq_some {name newe : Text} {l l' : List Text} (h : overwrite name newe l = some l') :
    ∃ front old back, l = front ++ old :: back ∧ l' = front ++ newe :: back ∧ sets name old = true := by
  induction l generalizing l' with
  | nil => cases h
  | cons s l ih =>
    rw [overwrite] at h
    split at h
    · rename_i hs
      cases h
      exact ⟨[], s, l, rfl, rfl, hs⟩
    · obtain ⟨l'', hl, rfl⟩ := Option.map_eq_some_iff.mp h
      obtain ⟨front, old, back, rfl, rfl, hs⟩ := ih hl
      exact ⟨s :: front, old, back, rfl, rfl, hs⟩

/-! ## The map -/

/-- A value for each name. -/
abbrev Map := Text → Option Text

/-- A new name takes memory for the array. -/
def Map.set (mem : Mem) (m : Map) (name value : Text) : Map :=
  if mem.strApp && (mem.realloc || (m name).isSome) then Function.update m name (some value) else m

def Map.call (mem : Mem) (m : Map) : Op → Map
  | .set name value => m.set mem name value
  | .put string =>
    if EQ ∈ string ∧ mem.strNDup = true then m.set mem (nameOf string) (string.dropWhile (· ≠ EQ)).tail
    else fun _ => none

def Map.run (heap : Heap) : List Op → Map → Map
  | [], m => m
  | op :: ops, m => Map.run (fun n => heap (n + 1)) ops (m.call (heap 0) op)

/-- The array stands for the map. -/
def Stands (e : StrArr) (m : Map) : Prop :=
  ∀ name value, m name = some value ↔ EQ ∉ name ∧ entry name value ∈ strings e

theorem Stands.getEnv_eq {m : Map} (hm : Stands e m) (h : Sound e) (hn : EQ ∉ name) :
    getEnv e name = m name := by
  apply Option.ext
  intro v
  rw [h.getEnv_eq_some hn, hm name v]
  exact (and_iff_right hn).symm

theorem stands_none : Stands none fun _ => none := by
  intro name value
  simp [strings]

/-- Whether a name is in the array. -/
theorem Stands.isSome_iff {m : Map} (hm : Stands e m) (h : Sound e) (hn : EQ ∉ name) :
    (m name).isSome = true ↔ ∃ s ∈ strings e, sets name s = true := by
  rw [Option.isSome_iff_exists]
  constructor
  · rintro ⟨v, hv⟩
    have hs := ((hm name v).mp hv).2
    exact ⟨_, hs, (h.sets_iff hn hs).mpr (nameOf_entry hn v)⟩
  · rintro ⟨s, hs, ht⟩
    obtain ⟨n, v, hn', rfl⟩ := h.valued s hs
    have hname := (h.sets_iff hn hs).mp ht
    rw [nameOf_entry hn'] at hname
    exact ⟨v, (hm name v).mpr ⟨hn, hname ▸ hs⟩⟩

/-- A new string in place of all that had its name. -/
theorem Stands.update {m : Map} {l : List Text} {e' : StrArr} (hm : Stands e m) (hn : EQ ∉ name)
    (h : ∀ s, s ∈ strings e' ↔ s = entry name value ∨ s ∈ l)
    (hl : ∀ s ∈ l, s ∈ strings e ∧ nameOf s ≠ name)
    (hl' : ∀ s ∈ strings e, nameOf s ≠ name → s ∈ l) :
    Stands e' (Function.update m name (some value)) := by
  intro n v
  rw [h]
  by_cases hne : n = name
  · subst hne
    rw [Function.update_self]
    constructor
    · intro hv
      cases hv
      exact ⟨hn, Or.inl rfl⟩
    · rintro ⟨-, hv | hv⟩
      · have hv := congrArg (valueOf n) hv
        rw [valueOf_entry, valueOf_entry] at hv
        exact hv.symm
      · exact absurd (nameOf_entry hn v) (hl _ hv).2
  · rw [Function.update_of_ne hne, hm]
    constructor
    · rintro ⟨hn', hv⟩
      exact ⟨hn', Or.inr (hl' _ hv (by rw [nameOf_entry hn']; exact hne))⟩
    · rintro ⟨hn', hv | hv⟩
      · have hv := congrArg nameOf hv
        rw [nameOf_entry hn', nameOf_entry hn] at hv
        exact absurd hv hne
      · exact ⟨hn', (hl _ hv).1⟩

theorem setEnv_refines {m : Map} (mem : Mem) (h : Sound e) (hm : Stands e m) (hn : EQ ∉ name)
    (value : Text) :
    Sound (setEnv mem e name value) ∧ Stands (setEnv mem e name value) (m.set mem name value) := by
  unfold setEnv Map.set
  cases happ : mem.strApp with
  | false => exact ⟨h, hm⟩
  | true =>
    rw [Bool.true_and]
    simp only [Bool.not_true, Bool.false_eq_true, if_false]
    cases ho : overwrite name (entry name value) (strings e) with
    | some e' =>
      obtain ⟨front, old, back, he, rfl, hs⟩ := overwrite_eq_some ho
      have hold : old ∈ strings e := by rw [he]; simp
      have hname : nameOf old = name := (h.sets_iff hn hold).mp hs
      have hsome : (m name).isSome = true := (hm.isSome_iff h hn).mpr ⟨old, hold, hs⟩
      have hnd := h.nodup
      rw [he, List.map_append, List.map_cons, List.nodup_middle, List.nodup_cons, hname] at hnd
      have hrest : ∀ s ∈ front ++ back, nameOf s ≠ name := by
        intro s hs' heq
        apply hnd.1
        rw [← List.map_append, ← heq]
        exact List.mem_map_of_mem hs'
      rw [hsome, Bool.or_true, if_pos rfl]
      refine ⟨⟨?_, ?_⟩, hm.update hn (l := front ++ back) ?_ ?_ ?_⟩
      · intro s hs'
        obtain hs' | rfl | hs' : s ∈ front ∨ s = entry name value ∨ s ∈ back := by
          simpa [strings] using hs'
        · exact h.valued s (by rw [he]; simp [hs'])
        · exact ⟨name, value, hn, rfl⟩
        · exact h.valued s (by rw [he]; simp [hs'])
      · show ((front ++ entry name value :: back).map nameOf).Nodup
        rw [List.map_append, List.map_cons, List.nodup_middle, List.nodup_cons, nameOf_entry hn]
        exact hnd
      · intro s
        simp only [strings, Option.getD_some, List.mem_append, List.mem_cons]
        tauto
      · intro s hs'
        refine ⟨?_, hrest s hs'⟩
        rw [he]
        simp only [List.mem_append, List.mem_cons] at hs' ⊢
        tauto
      · intro s hs' hne
        rw [he] at hs'
        obtain hs' | rfl | hs' : s ∈ front ∨ s = old ∨ s ∈ back := by simpa using hs'
        · simp [hs']
        · exact absurd hname hne
        · simp [hs']
    | none =>
      have hno := overwrite_eq_none.mp ho
      have hsome : (m name).isSome = false := by
        rw [Bool.eq_false_iff]
        intro hs
        obtain ⟨s, hs, ht⟩ := (hm.isSome_iff h hn).mp hs
        rw [hno s hs] at ht
        cases ht
      have hname : ∀ s ∈ strings e, nameOf s ≠ name := by
        intro s hs heq
        rw [← h.sets_iff hn hs, hno s hs] at heq
        cases heq
      rw [hsome, Bool.or_false]
      cases hre : mem.realloc with
      | false => exact ⟨h, hm⟩
      | true =>
        simp only [if_true]
        refine ⟨⟨?_, ?_⟩, hm.update hn (l := strings e) ?_ ?_ ?_⟩
        · intro s hs
          obtain hs | rfl : s ∈ strings e ∨ s = entry name value := by
            simpa [strings] using hs
          · exact h.valued s hs
          · exact ⟨name, value, hn, rfl⟩
        · show ((strings e ++ [entry name value]).map nameOf).Nodup
          rw [List.map_append, List.map_cons, List.map_nil, List.nodup_middle, List.append_nil,
            List.nodup_cons, nameOf_entry hn]
          refine ⟨?_, h.nodup⟩
          intro hs
          obtain ⟨s, hs, heq⟩ := List.mem_map.mp hs
          exact hname s hs heq
        · intro s
          simp [strings, or_comm]
        · exact fun s hs => ⟨hs, hname s hs⟩
        · exact fun s hs _ => hs

theorem call_refines {m : Map} (mem : Mem) (h : Sound e) (hm : Stands e m) {op : Op}
    (hop : ∀ name value, op = .set name value → EQ ∉ name) :
    Sound (op.call mem e) ∧ Stands (op.call mem e) (m.call mem op) := by
  cases op with
  | set name value => exact setEnv_refines mem h hm (hop name value rfl) value
  | put string =>
    show Sound (putEnv mem string e) ∧ Stands (putEnv mem string e)
      (if EQ ∈ string ∧ mem.strNDup = true then
        m.set mem (nameOf string) (string.dropWhile (· ≠ EQ)).tail else fun _ => none)
    unfold putEnv
    split
    · rename_i hd
      have hno : EQ ∉ string := by
        intro hs
        have := List.dropWhile_eq_nil_iff.mp hd EQ hs
        simp at this
      rw [if_neg (fun hs => hno hs.1)]
      exact ⟨.empty, stands_none⟩
    · rename_i c v hd
      have hin : EQ ∈ string := by
        by_contra hs
        have hnil : string.dropWhile (· ≠ EQ) = [] := by
          rw [List.dropWhile_eq_nil_iff]
          intro c hc
          simpa using ne_of_mem_of_not_mem hc hs
        rw [hd] at hnil
        cases hnil
      cases hdup : mem.strNDup with
      | false =>
        simp only [Bool.not_false, if_true, Bool.false_eq_true, and_false, if_false]
        exact ⟨.empty, stands_none⟩
      | true =>
        simp only [Bool.not_true, Bool.false_eq_true, if_false, hin, and_self, if_true, hd,
          List.tail_cons]
        exact setEnv_refines mem h hm (mem_nameOf string) v

theorem run_refines (heap : Heap) {ops : List Op} {m : Map} (h : Sound e) (hm : Stands e m)
    (hops : ∀ name value, .set name value ∈ ops → EQ ∉ name) :
    Sound (run heap ops e) ∧ Stands (run heap ops e) (Map.run heap ops m) := by
  induction ops generalizing heap e m with
  | nil => exact ⟨h, hm⟩
  | cons op ops ih =>
    have hop : ∀ name value, op = .set name value → EQ ∉ name :=
      fun name value ho => hops name value (ho ▸ List.mem_cons_self)
    obtain ⟨h1, hm1⟩ := call_refines (heap 0) h hm hop
    exact ih (fun n => heap (n + 1)) h1 hm1 fun name value ho =>
      hops name value (List.mem_cons_of_mem _ ho)

/-- **An environment is a map**: whatever the calls and the answers to their allocations, each name is in
the array once, and `getEnv` finds what the calls have made its value. -/
theorem environ_refines (heap : Heap) {ops : List Op}
    (hops : ∀ name value, .set name value ∈ ops → EQ ∉ name) (hn : EQ ∉ name) :
    ((strings (run heap ops none)).map nameOf).Nodup ∧
      getEnv (run heap ops none) name = Map.run heap ops (fun _ => none) name := by
  obtain ⟨h, hm⟩ := run_refines heap .empty stands_none hops
  exact ⟨h.nodup, hm.getEnv_eq h hn⟩

/-- The second call replaces what the first has set. -/
theorem environ_refines_put :
    EQ ∉ str "HOME" ∧
      ((strings (run (fun _ => ⟨true, true, true⟩) [.set (str "HOME") (str "/"), .put (str "HOME=/root")]
        none)).map nameOf).Nodup ∧
      getEnv (run (fun _ => ⟨true, true, true⟩) [.set (str "HOME") (str "/"), .put (str "HOME=/root")]
        none) (str "HOME") =
      Map.run (fun _ => ⟨true, true, true⟩) [.set (str "HOME") (str "/"), .put (str "HOME=/root")]
        (fun _ => none) (str "HOME") := by
  have hn : EQ ∉ str "HOME" := by decide +kernel
  refine ⟨hn, environ_refines _ ?_ hn⟩
  intro name value ho
  simp only [List.mem_cons, Op.set.injEq, reduceCtorEq, List.not_mem_nil, or_false] at ho
  rw [ho.1]
  exact hn

end Kdm.Client
