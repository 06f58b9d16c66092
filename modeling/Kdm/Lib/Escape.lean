import Mathlib.Data.List.Basic

/-!
# Fields of a text that end at a mark

Symbols are written as words, so that no word begins with a mark and each word is read back whatever
follows it.  A field, a row of symbols with a mark behind it, then ends where it should.

* `field` — the symbols up to the first mark that is not part of a word.
* `Spells` — a text consists of words for the given symbols.

Principal result: `field_of_spells`.
-/

namespace Kdm.Escape

variable {α β : Type} (stop : β → Bool) (read : List β → Option (α × List β))

/-- The symbols up to a mark, and what is behind it; there are fewer than the bound. -/
def field : Nat → List β → Option (List α × List β)
  | 0, _ => none
  | _ + 1, [] => none
  | n + 1, b :: s =>
    if stop b then some ([], s)
    else read (b :: s) >>= fun r => (field n r.2).map fun f => (r.1 :: f.1, f.2)

/-- A word for a symbol. -/
structure Word (w : List β) (a : α) : Prop where
  unmarked : ∃ b t, w = b :: t ∧ stop b = false
  read : ∀ s, read (w ++ s) = some (a, s)

/-- A text that consists of words for the symbols. -/
inductive Spells : List β → List α → Prop
  | nil : Spells [] []
  | cons {w t : List β} {a : α} {as : List α} (hw : Word stop read w a) (ht : Spells t as) :
      Spells (w ++ t) (a :: as)

variable {stop read} {t : List β} {as : List α} {b : β}

theorem Spells.length_le (h : Spells stop read t as) : as.length ≤ t.length := by
  induction h with
  | nil => simp
  | cons hw _ ih =>
    obtain ⟨b, u, rfl, -⟩ := hw.unmarked
    simp only [List.length_cons, List.length_append]
    omega

/-- **A field ends where it should**, and its symbols are read back. -/
theorem field_of_spells (h : Spells stop read t as) (hb : stop b = true) (s : List β) {n : Nat}
    (hn : as.length < n) : field stop read n (t ++ b :: s) = some (as, s) := by
  induction h generalizing n with
  | nil =>
    obtain ⟨n, rfl⟩ := Nat.exists_eq_succ_of_ne_zero (Nat.ne_of_gt hn)
    simp [field, hb]
  | @cons w t a as hw ht ih =>
    obtain ⟨n, rfl⟩ := Nat.exists_eq_succ_of_ne_zero (Nat.ne_of_gt (Nat.zero_lt_of_lt hn))
    have hread := hw.read (t ++ b :: s)
    obtain ⟨c, u, rfl, hc⟩ := hw.unmarked
    have hrest := ih (n := n) (by simpa using hn)
    simp only [List.cons_append, List.append_assoc] at hread ⊢
    simp [field, hc, hread, hrest]

/-- A field is read as what it spells only. -/
theorem Spells.unique {as' : List α} (h : Spells stop read t as) (h' : Spells stop read t as')
    (hb : stop b = true) : as = as' := by
  have hn := field_of_spells h hb [] (Nat.lt_succ_of_le (Nat.le_max_left as.length as'.length))
  have hn' := field_of_spells h' hb [] (Nat.lt_succ_of_le (Nat.le_max_right as.length as'.length))
  rw [hn] at hn'
  exact congrArg Prod.fst (Option.some.inj hn')

end Kdm.Escape
