import Mathlib.Data.List.Basic

/-!
# Lists of records with a key

A linked list of heap objects, each found by comparing addresses, is a list of records with a
key.  `get` is the search loop, `update` a write through the pointer, `erase` the unlinking of
the node.  None of the lemmas needs the keys to be distinct: `update` and `erase` act on every
record with the key, `get` returns the first.
-/

namespace Keyed

variable {α κ : Type*} [DecidableEq κ] (key : α → κ)

/-- The first record with key `k`. -/
def get (l : List α) (k : κ) : Option α := l.find? fun a => decide (key a = k)

/-- Write to the record with key `k`. -/
def update (l : List α) (k : κ) (f : α → α) : List α :=
  l.map fun a => if key a = k then f a else a

/-- Unlink the record with key `k`. -/
def erase (l : List α) (k : κ) : List α := l.filter fun a => decide (key a ≠ k)

variable {key} {l : List α} {a : α} {j k : κ} {f g : α → α}

@[simp] theorem get_nil : get key ([] : List α) k = none := rfl

theorem get_cons : get key (a :: l) k = if key a = k then some a else get key l k := by
  unfold get
  by_cases h : key a = k <;> simp [h]

theorem mem_of_get (h : get key l k = some a) : a ∈ l :=
  List.mem_of_find?_eq_some h

theorem key_of_get (h : get key l k = some a) : key a = k := by
  simpa using List.find?_some h

theorem mem_update (ha : a ∈ update key l k f) :
    ∃ b ∈ l, (key b = k ∧ a = f b) ∨ (key b ≠ k ∧ a = b) := by
  obtain ⟨b, hb, rfl⟩ := List.mem_map.mp ha
  refine ⟨b, hb, ?_⟩
  by_cases hk : key b = k
  · exact .inl ⟨hk, if_pos hk⟩
  · exact .inr ⟨hk, if_neg hk⟩

theorem exists_update (hf : ∀ a, key (f a) = key a) (h : ∃ a ∈ l, key a = j) :
    ∃ a ∈ update key l k f, key a = j := by
  obtain ⟨a, ha, hj⟩ := h
  refine ⟨_, List.mem_map_of_mem ha, ?_⟩
  split
  · exact (hf a).trans hj
  · exact hj

/-- **A write through one key leaves every other record alone.** -/
theorem get_update (hf : ∀ a, key (f a) = key a) :
    get key (update key l k f) j = if j = k then (get key l k).map f else get key l j := by
  induction l with
  | nil => simp [get, update]
  | cons a l ih =>
    have hu : update key (a :: l) k f = (if key a = k then f a else a) :: update key l k f := rfl
    rw [hu, get_cons, ih]
    by_cases hk : key a = k
    · simp only [hk, if_true, hf, get_cons, Option.map_some]
      by_cases hj : j = k
      · simp [hj]
      · simp [hj, Ne.symm hj]
    · simp only [hk, if_false, get_cons]
      by_cases hj : j = k
      · subst hj; simp [hk]
      · simp [hj]

theorem get_erase : get key (erase key l k) j = if j = k then none else get key l j := by
  induction l with
  | nil => simp [get, erase]
  | cons a l ih =>
    by_cases hk : key a = k
    · have he : erase key (a :: l) k = erase key l k := by simp [erase, hk]
      rw [he, ih, get_cons]
      by_cases hj : j = k
      · simp [hj]
      · simp [hj, hk, Ne.symm hj]
    · have he : erase key (a :: l) k = a :: erase key l k := by simp [erase, hk]
      rw [he, get_cons, ih, get_cons]
      by_cases hj : j = k
      · subst hj; simp [hk]
      · simp [hj]

/-- Writes that keep a part of the record keep the list of these parts. -/
theorem map_update {β : Type*} {g : α → β} (hf : ∀ a, g (f a) = g a) :
    (update key l k f).map g = l.map g := by
  unfold update
  rw [List.map_map]
  apply List.map_congr_left
  intro a _
  by_cases hk : key a = k <;> simp [hk, hf]

theorem map_key_update (hf : ∀ a, key (f a) = key a) :
    (update key l k f).map key = l.map key := map_update hf

theorem map_key_erase : (erase key l k).map key = (l.map key).filter (· ≠ k) := by
  unfold erase
  rw [List.filter_map]
  rfl

/-- With distinct keys, the search for a record's key finds the record. -/
theorem get_of_mem (hl : (l.map key).Nodup) (h : a ∈ l) : get key l (key a) = some a := by
  induction l with
  | nil => cases h
  | cons b l ih =>
    rw [List.map_cons, List.nodup_cons] at hl
    rw [get_cons]
    rcases List.mem_cons.mp h with rfl | h
    · simp
    · have hne : key b ≠ key a := fun he => hl.1 (he ▸ List.mem_map_of_mem h)
      simpa [hne] using ih hl.2 h

theorem update_update (hf : ∀ a, key (f a) = key a) :
    update key (update key l k f) k g = update key l k (fun a => g (f a)) := by
  unfold update
  rw [List.map_map]
  apply List.map_congr_left
  intro a _
  by_cases hk : key a = k <;> simp [hk, hf]

theorem erase_of_forall_ne (h : ∀ a ∈ l, key a ≠ k) : erase key l k = l := by
  unfold erase
  rw [List.filter_eq_self]
  intro a ha
  simpa using h a ha

/-- Writes to a record that is unlinked are lost. -/
theorem erase_update (hf : ∀ a, key (f a) = key a) :
    erase key (update key l k f) k = erase key l k := by
  induction l with
  | nil => rfl
  | cons a l ih =>
    unfold erase update at ih ⊢
    by_cases hk : key a = k
    · simpa [hk, hf] using ih
    · simpa [hk] using ih

end Keyed
