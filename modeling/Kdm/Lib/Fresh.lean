import Mathlib.Data.List.Nodup
import Mathlib.Data.List.Perm.Subperm

/-!
# The first name that is not in use

A sequence of candidates is tried one by one until one of them is not in a list.  When no candidate
comes twice, one more try than the list has items is enough.

Principal results: `seek_not_mem`, `seek_isSome`.
-/

namespace Fresh

variable {α : Type} [DecidableEq α]

/-- The first of the candidates from `start` on that is not used. -/
def seek (candidate : Nat → α) (used : List α) : Nat → Nat → Option α
  | 0, _ => none
  | tries + 1, start =>
    if candidate start ∈ used then seek candidate used tries (start + 1) else some (candidate start)

variable {candidate : Nat → α} {used : List α} {tries start : Nat} {x : α}

theorem seek_not_mem (h : seek candidate used tries start = some x) : x ∉ used := by
  induction tries generalizing start with
  | zero => cases h
  | succ tries ih =>
    unfold seek at h
    split at h
    · exact ih h
    · rename_i hnot
      cases h
      exact hnot

/-- If all tries fail, the candidates are used. -/
theorem mem_of_seek_eq_none (h : seek candidate used tries start = none) (i : Nat) (hi : i < tries) :
    candidate (start + i) ∈ used := by
  induction tries generalizing start i with
  | zero => exact absurd hi (Nat.not_lt_zero i)
  | succ tries ih =>
    unfold seek at h
    split at h
    · rename_i hmem
      cases i with
      | zero => exact hmem
      | succ i =>
        have := ih h i (Nat.lt_of_succ_lt_succ hi)
        rwa [Nat.add_assoc, Nat.add_comm 1 i] at this
    · cases h

theorem seek_isSome (hinj : ∀ i j, candidate i = candidate j → i = j) (used : List α) (start : Nat) :
    (seek candidate used (used.length + 1) start).isSome := by
  rw [Option.isSome_iff_ne_none]
  intro h
  have hsub : (List.range (used.length + 1)).map (fun i => candidate (start + i)) ⊆ used := by
    intro y hy
    obtain ⟨i, hi, rfl⟩ := List.mem_map.mp hy
    exact mem_of_seek_eq_none h i (List.mem_range.mp hi)
  have hnodup : ((List.range (used.length + 1)).map fun i => candidate (start + i)).Nodup := by
    refine List.nodup_range.map fun i j he => ?_
    exact Nat.add_left_cancel (hinj _ _ he)
  have hlen := (List.subperm_of_subset hnodup hsub).length_le
  rw [List.length_map, List.length_range] at hlen
  exact absurd hlen (Nat.not_succ_le_self _)

end Fresh
