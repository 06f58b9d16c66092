import Kdm.Lib.Lines

/-!
# Decimal numbers in a text

Whole numbers as their decimal digits, with a sign in front of a negative one.

Principal result: `dec_append_inj` (a number, and what follows it, are told by the character that ends
the number).
-/

namespace Decimal

def dec (n : Int) : List Char := (if n < 0 then ['-'] else []) ++ Nat.toDigits 10 n.natAbs

variable {n m : Int} {c : Char} {s t : List Char}

theorem mem_dec (h : c ∈ dec n) : c = '-' ∨ c.isDigit = true := by
  unfold dec at h
  obtain h | h := List.mem_append.mp h
  · split at h
    · exact Or.inl (List.mem_singleton.mp h)
    · cases h
  · exact Or.inr (Nat.isDigit_of_mem_toDigits (by decide) (by decide) h)

/-- The characters that end a number. -/
def Ends (c : Char) : Prop := c ≠ '-' ∧ c.isDigit = false

instance decidableEnds (c : Char) : Decidable (Ends c) := by
  unfold Ends
  infer_instance

theorem Ends.not_mem (hc : Ends c) (n : Int) : c ∉ dec n := by
  intro h
  obtain rfl | hd := mem_dec h
  · exact hc.1 rfl
  · rw [hc.2] at hd
    cases hd

theorem toDigits_inj {a b : Nat} (h : Nat.toDigits 10 a = Nat.toDigits 10 b) : a = b := by
  have hn := congrArg (fun ds => Nat.ofDigitChars 10 ds 0) h
  simpa using hn

theorem minus_not_mem (a : Nat) : '-' ∉ Nat.toDigits 10 a := fun h =>
  absurd (Nat.isDigit_of_mem_toDigits (by decide) (by decide) h) (by decide)

theorem dec_inj (h : dec n = dec m) : n = m := by
  unfold dec at h
  by_cases hn : n < 0 <;> by_cases hm : m < 0
  · rw [if_pos hn, if_pos hm] at h
    have := toDigits_inj (List.append_cancel_left h)
    omega
  · rw [if_pos hn, if_neg hm, List.nil_append] at h
    exact absurd (h ▸ List.mem_cons_self) (minus_not_mem m.natAbs)
  · rw [if_neg hn, if_pos hm, List.nil_append] at h
    exact absurd (h ▸ List.mem_cons_self) (minus_not_mem n.natAbs)
  · rw [if_neg hn, if_neg hm] at h
    have := toDigits_inj (List.append_cancel_left h)
    omega

theorem dec_append_inj (hc : Ends c) (h : dec n ++ c :: s = dec m ++ c :: t) : n = m ∧ s = t := by
  obtain ⟨h1, h2⟩ := Lines.append_cons_inj (hc.not_mem n) (hc.not_mem m) h
  exact ⟨dec_inj h1, h2⟩

/-- The same for a number at the end. -/
theorem append_dec_inj (hc : Ends c) (h : s ++ c :: dec n = t ++ c :: dec m) : s = t ∧ n = m := by
  obtain ⟨h1, h2⟩ := Lines.append_cons_inj_last (hc.not_mem n) (hc.not_mem m) h
  exact ⟨h1, dec_inj h2⟩

/-- Characters that are not those of a number are replaced in front and behind of it. -/
theorem map_dec {f : Char → Char} (hf : ∀ c, c = '-' ∨ c.isDigit = true → f c = c) (n : Int) :
    (dec n).map f = dec n := by
  rw [List.map_congr_left fun c hc => hf c (mem_dec hc)]
  exact List.map_id _

end Decimal
