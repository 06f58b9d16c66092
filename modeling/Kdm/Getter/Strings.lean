import Kdm.Lib.Keyed
import Kdm.Lib.Runs
import Mathlib.Data.List.Nodup

/-!
# Interned strings

`newStr` and `delStr` of `resource.c` keep one record for every text, with a count of the
references to it.

* `State` — the records in memory, the list `strs` that links them, and the references that the
  dependency table, the displays and the global configuration hold.
* `step` — a call of `newStr` or `delStr`, or another copy of a reference.
* `Sound` — the list has exactly the records that are referred to, each text once, and only records
  without references were freed.

`delStr` unlinks a record first and frees what is then at its place, which is the next record or
nothing.  Principal result: `sound_iff`.
-/

namespace Kdm.Getter.Strings

open Runs

structure RcStr where
  addr : Nat
  cnt : Int
  str : List UInt8
  deriving DecidableEq

/-- `frees` notes for each count that reached zero which record it was and which one was freed,
with nothing for a NULL pointer. -/
structure State where
  heap : List RcStr
  strs : List Nat
  refs : List Nat
  frees : List (Nat × Option Nat)
  crashed : Bool
  deriving DecidableEq

inductive Event where
  | newStr (str : List UInt8) (malloc : Option Nat)
  | copy (p : Nat)
  | delStr (p : Option Nat)
  deriving DecidableEq

/-- The loop of `newStr` over the list; it fails on a link to a record that was freed. -/
def search (heap : List RcStr) (str : List UInt8) : List Nat → Option (Option RcStr)
  | [] => some none
  | a :: l =>
    match Keyed.get RcStr.addr heap a with
    | none => none
    | some cs => if str = cs.str then some (some cs) else search heap str l

/-- `cnt++`. -/
def retain (s : State) (p : Nat) : State :=
  { s with
    heap := Keyed.update RcStr.addr s.heap p fun cs => { cs with cnt := cs.cnt + 1 }
    refs := p :: s.refs }

def newStr (str : List UInt8) (malloc : Option Nat) (s : State) : State :=
  match search s.heap str s.strs with
  | none => { s with crashed := true }
  | some (some cs) => retain s cs.addr
  | some none =>
    match malloc with
    | none => s
    | some a => { s with heap := ⟨a, 1, str⟩ :: s.heap, strs := a :: s.strs, refs := a :: s.refs }

/-- What the loop of `delStr` comes to: a link to freed memory, the end of the list, or the record,
with the rest of the list and what `*cs` points to when the record is unlinked. -/
inductive Unlinked where
  | crash
  | missing
  | found (strs : List Nat) (cs : Option Nat)

def unlink (heap : List RcStr) (p : Nat) : List Nat → Unlinked
  | [] => .missing
  | a :: l =>
    if p = a then .found l l.head?
    else
      match Keyed.get RcStr.addr heap a with
      | none => .crash
      | some _ =>
        match unlink heap p l with
        | .crash => .crash
        | .missing => .missing
        | .found strs cs => .found (a :: strs) cs

def delStr (p : Nat) (s : State) : State :=
  match Keyed.get RcStr.addr s.heap p with
  | none => { s with crashed := true }
  | some str =>
    let s := { s with
      heap := Keyed.update RcStr.addr s.heap p fun cs => { cs with cnt := cs.cnt - 1 }
      refs := s.refs.erase p }
    if str.cnt - 1 ≠ 0 then s
    else
      match unlink s.heap p s.strs with
      | .crash => { s with crashed := true }
      | .missing => s
      | .found strs none => { s with strs, frees := (p, none) :: s.frees, crashed := true }
      | .found strs (some q) =>
        { s with
          heap := Keyed.erase RcStr.addr s.heap q
          strs
          frees := (p, some q) :: s.frees
          crashed := (Keyed.get RcStr.addr s.heap q).isNone }

def step (e : Event) (s : State) : Option State :=
  if s.crashed then none
  else
    match e with
    | .newStr str malloc => some (newStr str malloc s)
    | .copy p => some (retain s p)
    | .delStr none => some s
    | .delStr (some p) => some (delStr p s)

def Start (s : State) : Prop := s = ⟨[], [], [], [], false⟩

/-- Memory is not handed out twice, and the owners copy and drop references that they have. -/
def Allowed (s : State) : Event → Prop
  | .newStr _ malloc => ∀ a, malloc = some a → a ∉ s.heap.map RcStr.addr
  | .copy p => p ∈ s.refs
  | .delStr p => ∀ a, p = some a → a ∈ s.refs

/-- **The property**. -/
structure Sound (s : State) : Prop where
  runs : s.crashed = false
  linked : s.heap.map RcStr.addr = s.strs
  distinct : s.strs.Nodup
  texts : (s.heap.map RcStr.str).Nodup
  counted : ∀ cs ∈ s.heap, cs.cnt = s.refs.count cs.addr ∧ cs.addr ∈ s.refs
  referred : ∀ p ∈ s.refs, p ∈ s.strs
  freed : ∀ x ∈ s.frees, x.2 = some x.1

/-- The only reference to a record is dropped. -/
def LastDrop (s : State) (e : Event) : Prop :=
  ∃ p cs, e = .delStr (some p) ∧ Keyed.get RcStr.addr s.heap p = some cs ∧ cs.cnt = 1

variable {s s' : State}

/-! ## The loops -/

theorem mem_strs (h : Sound s) {p : Nat} (hp : p ∈ s.strs) :
    ∃ cs ∈ s.heap, cs.addr = p ∧ Keyed.get RcStr.addr s.heap p = some cs := by
  rw [← h.linked] at hp
  obtain ⟨cs, hcs, rfl⟩ := List.mem_map.mp hp
  exact ⟨cs, hcs, rfl, Keyed.get_of_mem (h.linked ▸ h.distinct) hcs⟩

/-- The search finds the record with the text, if there is one. -/
theorem search_cases {heap : List RcStr} (str : List UInt8) {l : List Nat}
    (hl : ∀ a ∈ l, ∃ cs ∈ heap, cs.addr = a ∧ Keyed.get RcStr.addr heap a = some cs) :
    (∃ cs ∈ heap, cs.addr ∈ l ∧ cs.str = str ∧ search heap str l = some (some cs)) ∨
      (search heap str l = some none ∧ ∀ a ∈ l, ∀ cs, Keyed.get RcStr.addr heap a = some cs →
        cs.str ≠ str) := by
  induction l with
  | nil => exact .inr ⟨rfl, fun a ha => by cases ha⟩
  | cons a l ih =>
    obtain ⟨cs, hcs, rfl, hget⟩ := hl _ List.mem_cons_self
    unfold search
    rw [hget]
    dsimp only
    by_cases heq : str = cs.str
    · rw [if_pos heq]
      exact .inl ⟨cs, hcs, List.mem_cons_self, heq.symm, rfl⟩
    · rw [if_neg heq]
      rcases ih fun a ha => hl a (List.mem_cons_of_mem _ ha) with ⟨c, hc, hm, hstr, hs⟩ | ⟨hs, hno⟩
      · exact .inl ⟨c, hc, List.mem_cons_of_mem _ hm, hstr, hs⟩
      · refine .inr ⟨hs, fun a ha c hc => ?_⟩
        rcases List.mem_cons.mp ha with rfl | ha
        · rw [Option.some.inj (hget.symm.trans hc)] at heq
          exact Ne.symm heq
        · exact hno a ha c hc

/-- Unlinking a record finds it, and never leaves its own link at its place. -/
theorem unlink_found {heap : List RcStr} {p : Nat} {l : List Nat}
    (hl : ∀ a ∈ l, ∃ cs, Keyed.get RcStr.addr heap a = some cs) (hn : l.Nodup) (hp : p ∈ l) :
    ∃ strs cs, unlink heap p l = .found strs cs ∧ cs ≠ some p := by
  induction l with
  | nil => cases hp
  | cons a l ih =>
    obtain ⟨hna, hn⟩ := List.nodup_cons.mp hn
    unfold unlink
    by_cases heq : p = a
    · rw [if_pos heq]
      refine ⟨l, l.head?, rfl, fun hh => hna (heq ▸ ?_)⟩
      exact List.mem_of_mem_head? hh
    · rw [if_neg heq]
      obtain ⟨cs, hget⟩ := hl a List.mem_cons_self
      obtain ⟨strs, c, hu, hc⟩ := ih (fun a ha => hl a (List.mem_cons_of_mem _ ha)) hn
        ((List.mem_cons.mp hp).resolve_left heq)
      rw [hget, hu]
      exact ⟨a :: strs, c, rfl, hc⟩

/-! ## The invariant -/

/-- The count of a record and the references to it change together. -/
theorem Sound.count {p : Nat} {refs : List Nat} {f : RcStr → RcStr} (h : Sound s)
    (ha : ∀ cs, (f cs).addr = cs.addr) (hs : ∀ cs, (f cs).str = cs.str)
    (hf : ∀ cs ∈ s.heap, cs.addr = p → (f cs).cnt = refs.count p ∧ p ∈ refs)
    (hrefs : ∀ q, q ≠ p → refs.count q = s.refs.count q) (hp : p ∈ s.strs) :
    Sound { s with heap := Keyed.update RcStr.addr s.heap p f, refs } where
  runs := h.runs
  linked := by rw [Keyed.map_key_update ha]; exact h.linked
  distinct := h.distinct
  texts := by rw [Keyed.map_update hs]; exact h.texts
  counted cs hcs := by
    obtain ⟨c, hc, rfl⟩ := List.mem_map.mp hcs
    dsimp only
    split
    · rename_i hk
      rw [ha, hk]
      exact hf c hc hk
    · rename_i hk
      rw [hrefs _ hk]
      obtain ⟨hcnt, hmem⟩ := h.counted c hc
      refine ⟨hcnt, List.count_pos_iff.mp ?_⟩
      rw [hrefs _ hk]
      exact List.count_pos_iff.mpr hmem
  referred q hq := by
    by_cases hk : q = p
    · exact hk ▸ hp
    · refine h.referred q (List.count_pos_iff.mp ?_)
      rw [← hrefs q hk]
      exact List.count_pos_iff.mpr hq
  freed := h.freed

theorem Sound.retain {p : Nat} (h : Sound s) (hp : p ∈ s.strs) : Sound (retain s p) := by
  refine h.count (fun _ => rfl) (fun _ => rfl) (fun cs hcs hk => ⟨?_, List.mem_cons_self⟩)
    (fun q hq => List.count_cons_of_ne (Ne.symm hq)) hp
  have hcnt := (h.counted cs hcs).1
  rw [List.count_cons_self]
  dsimp only
  rw [hcnt, hk]
  omega

/-- A record with another text is added. -/
theorem Sound.add {a : Nat} {str : List UInt8} (h : Sound s) (ha : a ∉ s.heap.map RcStr.addr)
    (hstr : ∀ cs ∈ s.heap, cs.str ≠ str) :
    Sound { s with heap := ⟨a, 1, str⟩ :: s.heap, strs := a :: s.strs, refs := a :: s.refs } where
  runs := h.runs
  linked := by rw [List.map_cons, h.linked]
  distinct := List.nodup_cons.mpr ⟨h.linked ▸ ha, h.distinct⟩
  texts := by
    rw [List.map_cons]
    refine List.nodup_cons.mpr ⟨fun hm => ?_, h.texts⟩
    obtain ⟨cs, hcs, heq⟩ := List.mem_map.mp hm
    exact hstr cs hcs heq
  counted cs hcs := by
    have hnot : a ∉ s.refs := fun hm => ha (h.linked ▸ h.referred a hm)
    rcases List.mem_cons.mp hcs with rfl | hcs
    · refine ⟨?_, List.mem_cons_self⟩
      rw [List.count_cons_self, List.count_eq_zero.mpr hnot]
      rfl
    · have hne : cs.addr ≠ a := fun heq => ha (heq ▸ List.mem_map_of_mem hcs)
      obtain ⟨hcnt, hmem⟩ := h.counted cs hcs
      rw [List.count_cons_of_ne (Ne.symm hne)]
      exact ⟨hcnt, List.mem_cons_of_mem _ hmem⟩
  referred p hp := by
    rcases List.mem_cons.mp hp with rfl | hp
    · exact List.mem_cons_self
    · exact List.mem_cons_of_mem _ (h.referred p hp)
  freed := h.freed

theorem Sound.newStr {str : List UInt8} {malloc : Option Nat} (h : Sound s)
    (hm : ∀ a, malloc = some a → a ∉ s.heap.map RcStr.addr) :
    Sound (newStr str malloc s) := by
  unfold Strings.newStr
  rcases search_cases str fun a ha => mem_strs h ha with ⟨cs, _, hmem, _, hs⟩ | ⟨hs, hno⟩
  · rw [hs]
    exact h.retain hmem
  · rw [hs]
    cases malloc with
    | none => exact h
    | some a =>
      refine h.add (hm a rfl) fun cs hcs => ?_
      have hget := Keyed.get_of_mem (h.linked ▸ h.distinct : (s.heap.map RcStr.addr).Nodup) hcs
      exact hno cs.addr (h.linked ▸ List.mem_map_of_mem hcs) cs hget

/-- A reference is dropped that is not the only one. -/
theorem Sound.drop {p : Nat} (h : Sound s) (hp : p ∈ s.refs)
    (hlast : ¬ LastDrop s (.delStr (some p))) : Sound (delStr p s) := by
  obtain ⟨cs, hcs, hk, hget⟩ := mem_strs h (h.referred p hp)
  have hcnt := (h.counted cs hcs).1
  have hone : cs.cnt ≠ 1 := fun heq => hlast ⟨p, cs, rfl, hget, heq⟩
  have hpos : 0 < s.refs.count p := List.count_pos_iff.mpr hp
  have hne : cs.cnt - 1 ≠ 0 := by omega
  unfold delStr
  rw [hget]
  dsimp only
  rw [if_pos hne]
  refine h.count (fun _ => rfl) (fun _ => rfl) (fun c hc hck => ?_)
    (fun q hq => List.count_erase_of_ne hq) (h.referred p hp)
  have hc' := (h.counted c hc).1
  rw [hk] at hcnt
  rw [hck] at hc'
  have hsub : (s.refs.erase p).count p = s.refs.count p - 1 := List.count_erase_self
  refine ⟨by dsimp only; omega, List.count_pos_iff.mp (by omega)⟩

theorem Sound.step {e : Event} (h : Sound s) (ha : Allowed s e) (hlast : ¬ LastDrop s e)
    (hs : step e s = some s') : Sound s' := by
  unfold Strings.step at hs
  rw [h.runs] at hs
  cases e with
  | newStr str malloc => cases hs; exact h.newStr ha
  | copy p => cases hs; exact h.retain (h.referred p ha)
  | delStr p =>
    cases p with
    | none => cases hs; exact h
    | some p => cases hs; exact h.drop (ha p rfl) hlast

/-! ## Where it breaks -/

/-- A record was to be freed, and another one or nothing was. -/
def Broken (s : State) : Prop := ∃ x ∈ s.frees, x.2 ≠ some x.1

theorem broken_of_lastDrop {e : Event} (h : Sound s) (ha : Allowed s e) (hlast : LastDrop s e)
    (hs : step e s = some s') : Broken s' := by
  obtain ⟨p, cs, rfl, hget, hone⟩ := hlast
  have hp : p ∈ s.strs := h.referred p (ha p rfl)
  have hlinks : ∀ a ∈ s.strs, ∃ c, Keyed.get RcStr.addr
      (Keyed.update RcStr.addr s.heap p fun cs => { cs with cnt := cs.cnt - 1 }) a = some c := by
    intro a ha
    obtain ⟨c, _, _, hc⟩ := mem_strs h ha
    have hkey : ∀ cs : RcStr, RcStr.addr { cs with cnt := cs.cnt - 1 } = cs.addr := fun _ => rfl
    rw [Keyed.get_update hkey, hc]
    split
    · rename_i heq
      rw [← heq, hc]
      exact ⟨_, rfl⟩
    · exact ⟨_, rfl⟩
  obtain ⟨strs, q, hu, hq⟩ := unlink_found hlinks h.distinct hp
  unfold Strings.step at hs
  rw [h.runs] at hs
  cases hs
  unfold Broken delStr
  rw [hget]
  dsimp only
  rw [if_neg (by omega), hu]
  cases q with
  | none => exact ⟨_, List.mem_cons_self, hq⟩
  | some q => exact ⟨_, List.mem_cons_self, hq⟩

/-- What was freed stays on record. -/
theorem Broken.step {e : Event} (h : Broken s) (hs : step e s = some s') : Broken s' := by
  obtain ⟨x, hx, hne⟩ := h
  refine ⟨x, ?_, hne⟩
  unfold Strings.step at hs
  split at hs
  · cases hs
  · cases e with
    | newStr str malloc =>
      cases hs
      unfold Strings.newStr
      split
      · exact hx
      · exact hx
      · split <;> exact hx
    | copy p => cases hs; exact hx
    | delStr p =>
      cases p with
      | none => cases hs; exact hx
      | some p =>
        cases hs
        unfold delStr
        split
        · exact hx
        · dsimp only
          split
          · exact hx
          · split
            · exact hx
            · exact hx
            · exact List.mem_cons_of_mem _ hx
            · exact List.mem_cons_of_mem _ hx

theorem sound_or_broken {h : List (State × Event)} (hr : Run step Start Allowed h s) :
    ((∀ x ∈ h, ¬ LastDrop x.1 x.2) ∧ Sound s) ∨ ((∃ x ∈ h, LastDrop x.1 x.2) ∧ Broken s) := by
  induction hr with
  | start h0 =>
    cases h0
    refine .inl ⟨fun x hx => absurd hx List.not_mem_nil, rfl, rfl, List.nodup_nil, List.nodup_nil,
      ?_, ?_, ?_⟩
    · exact fun cs hcs => by cases hcs
    · exact fun p hp => by cases hp
    · exact fun x hx => by cases hx
  | @next h s s' e _ ha hs ih =>
    rcases ih with ⟨hno, hsound⟩ | ⟨⟨x, hx, hlast⟩, hb⟩
    · by_cases hlast : LastDrop s e
      · exact .inr ⟨⟨(s, e), List.mem_cons_self, hlast⟩, broken_of_lastDrop hsound ha hlast hs⟩
      · exact .inl ⟨List.forall_mem_cons.mpr ⟨hlast, hno⟩, hsound.step ha hlast hs⟩
    · exact .inr ⟨⟨x, List.mem_cons_of_mem _ hx, hlast⟩, hb.step hs⟩

/-- **Interned strings**: they are sound, and their pointers as good as their texts, as long as no
string loses its last reference, and never after that. -/
theorem sound_iff {h : List (State × Event)} (hr : Run step Start Allowed h s) :
    (Sound s ∧ ∀ cs ∈ s.heap, ∀ cs' ∈ s.heap, cs.addr = cs'.addr ↔ cs.str = cs'.str) ↔
      ∀ x ∈ h, ¬ LastDrop x.1 x.2 := by
  constructor
  · rintro ⟨hsound, _⟩
    rcases sound_or_broken hr with ⟨hno, _⟩ | ⟨_, x, hx, hne⟩
    · exact hno
    · exact absurd (hsound.freed x hx) hne
  · intro hno
    rcases sound_or_broken hr with ⟨_, hsound⟩ | ⟨⟨x, hx, hlast⟩, _⟩
    · refine ⟨hsound, fun cs hcs cs' hcs' => ⟨fun heq => ?_, fun heq => ?_⟩⟩
      · rw [List.inj_on_of_nodup_map (hsound.linked ▸ hsound.distinct) hcs hcs' heq]
      · rw [List.inj_on_of_nodup_map hsound.texts hcs hcs' heq]
    · exact absurd hlast (hno x hx)

/-- The strings are made, and one of them is dropped again. -/
theorem run_two : ∃ s, Run step Start Allowed
    [(⟨[⟨1, 1, [97]⟩], [1], [1], [], false⟩, .newStr [98] (some 2)),
      (⟨[], [], [], [], false⟩, .newStr [97] (some 1))] s ∧
    s = ⟨[⟨2, 1, [98]⟩, ⟨1, 1, [97]⟩], [2, 1], [2, 1], [], false⟩ := by
  have hfirst : Run step Start Allowed [(⟨[], [], [], [], false⟩, .newStr [97] (some 1))]
      ⟨[⟨1, 1, [97]⟩], [1], [1], [], false⟩ :=
    .next (.start rfl) (fun a _ => List.not_mem_nil) rfl
  exact ⟨_, .next hfirst (fun a ha => by cases ha; decide) rfl, rfl⟩

theorem sound_iff_two : ∃ (h : List (State × Event)) (s : State), h.length = 3 ∧
    ((Sound s ∧ ∀ cs ∈ s.heap, ∀ cs' ∈ s.heap, cs.addr = cs'.addr ↔ cs.str = cs'.str) ↔
      ∀ x ∈ h, ¬ LastDrop x.1 x.2) := by
  obtain ⟨s, hr, rfl⟩ := run_two
  exact ⟨_, _, rfl, sound_iff (hr.next (e := .copy 2) List.mem_cons_self rfl)⟩

/-- Dropping the last reference to one string frees the record of another one. -/
theorem not_sound : ∃ (h : List (State × Event)) (s : State), Run step Start Allowed h s ∧
    s.refs = [1] ∧ s.frees = [(2, some 1)] ∧ ¬ Sound s := by
  obtain ⟨s, hr, rfl⟩ := run_two
  have hallowed : Allowed ⟨[⟨2, 1, [98]⟩, ⟨1, 1, [97]⟩], [2, 1], [2, 1], [], false⟩
      (.delStr (some 2)) := fun a ha => by cases ha; decide
  refine ⟨_, _, hr.next hallowed rfl, rfl, rfl, ?_⟩
  exact fun hs => absurd (hs.freed _ List.mem_cons_self) (by decide)

end Kdm.Getter.Strings
