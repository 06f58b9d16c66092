import Mathlib.Order.Lattice

/-!
# The best candidate of a list

A loop over a list that keeps a candidate and replaces it by a strictly better one.  Each element
may be a candidate: it then has a rank and a value.

Principal results: `isBest_foldl`, `IsBest.isSome_iff`.
-/

namespace Best

variable {α κ β : Type*} [LinearOrder κ] {c : α → Option (κ × β)}

/-- Keep the current best unless the element is a candidate that is strictly better. -/
def better (c : α → Option (κ × β)) (best : Option (κ × β)) (a : α) : Option (κ × β) :=
  match c a with
  | none => best
  | some kb => if best.all fun b => decide (b.1 < kb.1) then some kb else best

/-- A candidate of the list that no candidate of it exceeds, or nothing if there is none. -/
def IsBest (c : α → Option (κ × β)) (l : List α) : Option (κ × β) → Prop
  | none => ∀ a ∈ l, c a = none
  | some kb => (∃ a ∈ l, c a = some kb) ∧ ∀ a ∈ l, ∀ kb', c a = some kb' → kb'.1 ≤ kb.1

/-- One element more. -/
theorem IsBest.better {l : List α} {best : Option (κ × β)} (h : IsBest c l best) (a : α) :
    IsBest c (l ++ [a]) (better c best a) := by
  unfold Best.better
  cases hc : c a with
  | none =>
    cases best with
    | none =>
      intro x hx
      rcases List.mem_append.mp hx with hx | hx
      · exact h x hx
      · rw [List.mem_singleton.mp hx]
        exact hc
    | some kb =>
      obtain ⟨⟨x, hx, hcx⟩, hmax⟩ := h
      refine ⟨⟨x, List.mem_append_left _ hx, hcx⟩, fun y hy kb' hkb' => ?_⟩
      rcases List.mem_append.mp hy with hy | hy
      · exact hmax y hy kb' hkb'
      · rw [List.mem_singleton.mp hy, hc] at hkb'
        cases hkb'
  | some ka =>
    have hnew : a ∈ l ++ [a] := List.mem_append_right _ List.mem_cons_self
    -- what has to be shown about the last element of the list
    have hlast : ∀ kb', c a = some kb' → kb'.1 ≤ ka.1 := by
      intro kb' hkb'
      rw [hc] at hkb'
      cases hkb'
      exact le_refl _
    cases best with
    | none =>
      refine ⟨⟨a, hnew, hc⟩, fun y hy kb' hkb' => ?_⟩
      rcases List.mem_append.mp hy with hy | hy
      · rw [h y hy] at hkb'
        cases hkb'
      · exact hlast kb' (List.mem_singleton.mp hy ▸ hkb')
    | some kb =>
      obtain ⟨⟨x, hx, hcx⟩, hmax⟩ := h
      simp only [Option.all_some, decide_eq_true_eq]
      by_cases hlt : kb.1 < ka.1
      · rw [if_pos hlt]
        refine ⟨⟨a, hnew, hc⟩, fun y hy kb' hkb' => ?_⟩
        rcases List.mem_append.mp hy with hy | hy
        · exact le_trans (hmax y hy kb' hkb') (le_of_lt hlt)
        · exact hlast kb' (List.mem_singleton.mp hy ▸ hkb')
      · rw [if_neg hlt]
        refine ⟨⟨x, List.mem_append_left _ hx, hcx⟩, fun y hy kb' hkb' => ?_⟩
        rcases List.mem_append.mp hy with hy | hy
        · exact hmax y hy kb' hkb'
        · exact le_trans (hlast kb' (List.mem_singleton.mp hy ▸ hkb')) (not_lt.mp hlt)

/-- **The loop finds the best.** -/
theorem isBest_foldl (c : α → Option (κ × β)) (l : List α) :
    IsBest c l (l.foldl (better c) none) := by
  -- the induction is on the elements still to come
  suffices h : ∀ (l₂ l₁ : List α) (best : Option (κ × β)), IsBest c l₁ best →
      IsBest c (l₁ ++ l₂) (l₂.foldl (better c) best) by
    exact h l [] none fun _ ha => absurd ha List.not_mem_nil
  intro l₂
  induction l₂ with
  | nil =>
    intro l₁ best h
    rw [List.append_nil]
    exact h
  | cons a l₂ ih =>
    intro l₁ best h
    have hstep := ih (l₁ ++ [a]) _ (h.better a)
    rw [List.append_assoc] at hstep
    exact hstep

theorem IsBest.isSome_iff {l : List α} {best : Option (κ × β)} (h : IsBest c l best) :
    best.isSome ↔ ∃ a ∈ l, (c a).isSome := by
  cases best with
  | none =>
    refine ⟨fun hn => absurd hn (by simp), fun ⟨a, ha, hs⟩ => ?_⟩
    rw [h a ha] at hs
    cases hs
  | some kb =>
    obtain ⟨⟨a, ha, hc⟩, -⟩ := h
    exact ⟨fun _ => ⟨a, ha, by rw [hc]; rfl⟩, fun _ => rfl⟩

end Best
