import Kdm.Ipc.Codec
import Kdm.Lib.Glob
import Kdm.Xdmcp.Access
import Mathlib.Data.List.Induction

/-!
# Matching names with patterns

`patternMatch` (`access.c` and `kdm_config.c`) with its two cursors.  A cursor is what is left of a
text with its terminator; nothing is left behind the terminator, and reading there fails.

* `matchAt` — the loop with its recursion, on the memory.
* `parse`, `run` — the pattern as a list of tokens, and what the loop does with these.
* `Starved`, `Missed` — where it goes wrong.

Principal result: `patternMatch_correct_iff`.
-/

namespace Kdm.Xdmcp

open Glob

/-! ## The code -/

/-- `for (; *string; string++) if (f(string)) return True; return False;` -/
def tryEach (f : Bytes → Option Bool) : Bytes → Option Bool
  | [] => none
  | s :: string =>
    if s = 0 then some false
    else (f (s :: string)).bind fun b => if b then some true else tryEach f string

/-- The pattern and the string from the cursors on. -/
@[simp] def matchAt : Bytes → Bytes → Option Bool
  | [], _ => none
  | _ :: _, [] => none
  | p :: pattern, s :: string =>
    if p = 42 then
      match pattern with
      | [] => none
      | q :: pattern' => if q = 0 then some true else tryEach (matchAt (q :: pattern')) (s :: string)
    else if p = 63 then if s = 0 then some false else matchAt pattern string
    else if p = 0 then some (s == 0)
    else if p = 92 then
      match pattern with
      | [] => none
      | p :: pattern => if tolower p ≠ tolower s then some false else matchAt pattern string
    else if tolower p ≠ tolower s then some false
    else matchAt pattern string

/-- A text in memory, with its terminator. -/
def memory (s : Ipc.CStr) : Bytes := s.1 ++ [0]

theorem zero_not_mem_nil : (0 : UInt8) ∉ ([] : Bytes) := List.not_mem_nil

/-- No string is an empty one. -/
def textOf (string : Option Ipc.CStr) : Ipc.CStr := string.getD ⟨[], zero_not_mem_nil⟩

/-- `patternMatch` of `access.c`. -/
def accessPatternMatch (string : Option Ipc.CStr) (pattern : Ipc.CStr) : Option Bool :=
  matchAt (memory pattern) (memory (textOf string))

/-- `patternMatch` of `kdm_config.c`, which is the same text. -/
def configPatternMatch (string : Option Ipc.CStr) (pattern : Ipc.CStr) : Option Bool :=
  matchAt (memory pattern) (memory (textOf string))

/-! ## The language of a pattern -/

/-- The tokens of a pattern, and whether a backslash that quotes nothing follows them. -/
def parse : Bytes → List (Tok UInt8) × Bool
  | [] => ([], false)
  | c :: p =>
    if c = 42 then (.star :: (parse p).1, (parse p).2)
    else if c = 63 then (.any :: (parse p).1, (parse p).2)
    else if c = 92 then
      match p with
      | [] => ([], true)
      | c' :: p' => (.lit c' :: (parse p').1, (parse p').2)
    else (.lit c :: (parse p).1, (parse p).2)

@[simp] theorem parse_star (p : Bytes) : parse (42 :: p) = (.star :: (parse p).1, (parse p).2) := by
  cases p <;> rfl

@[simp] theorem parse_any (p : Bytes) : parse (63 :: p) = (.any :: (parse p).1, (parse p).2) := by
  cases p <;> rfl

@[simp] theorem parse_backslash : parse [92] = ([], true) := rfl

@[simp] theorem parse_quoted (c : UInt8) (p : Bytes) :
    parse (92 :: c :: p) = (.lit c :: (parse p).1, (parse p).2) := rfl

theorem parse_lit {c : UInt8} (h42 : c ≠ 42) (h63 : c ≠ 63) (h92 : c ≠ 92) (p : Bytes) :
    parse (c :: p) = (.lit c :: (parse p).1, (parse p).2) := by
  rw [parse.eq_def]
  simp [h42, h63, h92]

/-- Letters are compared without regard to case. -/
def SameLetter (b a : UInt8) : Prop := tolower b = tolower a

/-- The string is in the language of the pattern; a backslash at the end quotes nothing, and then
there is no such string. -/
def InLanguage (string pattern : Bytes) : Prop :=
  (parse pattern).2 = false ∧ Matches SameLetter (parse pattern).1 string

/-! ## The code on tokens -/

/-- Whether some end of the word that is not empty passes. -/
def firstOf (g : Bytes → Option Bool) : Bytes → Option Bool
  | [] => some false
  | a :: s => (g (a :: s)).bind fun b => if b then some true else firstOf g s

/-- What the loop does with the tokens; `dangling` if a backslash follows them. -/
@[simp] def run (dangling : Bool) : List (Tok UInt8) → Bytes → Option Bool
  | [], s => if dangling then if s = [] then none else some false else some s.isEmpty
  | .star :: ts, s =>
    if ts = [] ∧ dangling = false then some true else firstOf (run dangling ts) s
  | .any :: _, [] => some false
  | .any :: ts, _ :: s => run dangling ts s
  | .lit _ :: _, [] => some false
  | .lit b :: ts, a :: s => if tolower b = tolower a then run dangling ts s else some false

theorem tryEach_eq (f : Bytes → Option Bool) {s : Bytes} (hs : 0 ∉ s) :
    tryEach f (s ++ [0]) = firstOf (fun s' => f (s' ++ [0])) s := by
  induction s with
  | nil => rfl
  | cons a s ih =>
    rw [List.mem_cons, not_or] at hs
    rw [List.cons_append, tryEach, if_neg (Ne.symm hs.1), firstOf, ih hs.2, List.cons_append]

theorem firstOf_congr {f g : Bytes → Option Bool} {s : Bytes}
    (h : ∀ s', s' <:+ s → f s' = g s') : firstOf f s = firstOf g s := by
  induction s with
  | nil => rfl
  | cons a s ih =>
    rw [firstOf, firstOf, h _ List.suffix_rfl,
      ih fun s' hs' => h s' (hs'.trans (List.suffix_cons a s))]

theorem tolower_eq_zero_iff (c : UInt8) : tolower c = 0 ↔ c = 0 := by
  unfold tolower
  constructor
  · intro h
    split at h
    · next hc =>
      have h1 : (65 : Nat) ≤ c.toNat := hc.1
      have h2 : c.toNat ≤ 90 := hc.2
      have h3 := congrArg UInt8.toNat h
      rw [UInt8.toNat_add] at h3
      simp at h3
      omega
    · exact h
  · rintro rfl
    decide

/-- No pattern but the empty one is without tokens and without a backslash at its end. -/
theorem parse_eq_nil {p : Bytes} (h1 : (parse p).1 = []) (h2 : (parse p).2 = false) : p = [] := by
  cases p with
  | nil => rfl
  | cons c p =>
    rw [parse.eq_def] at h1 h2
    dsimp only at h1 h2
    split at h1
    · cases h1
    split at h1
    · cases h1
    split at h1
    · split at h1
      · next h42 h63 h92 _ =>
        rw [if_neg h42, if_neg h63, if_pos h92] at h2
        cases h2
      · cases h1
    · cases h1

/-- The character that the loop takes for the end is not in the string. -/
theorem matchAt_nil {s : Bytes} (hs : 0 ∉ s) : matchAt [0] (s ++ [0]) = some s.isEmpty := by
  cases s with
  | nil => rfl
  | cons a s =>
    have ha : a ≠ 0 := fun h => hs (h ▸ List.mem_cons_self)
    simp [matchAt, ha]

/-- A star: the rest of the pattern is tried at every end of the string. -/
theorem matchAt_star {p s : Bytes} (hp : 0 ∉ p) (hs : 0 ∉ s) :
    matchAt (42 :: (p ++ [0])) (s ++ [0]) =
      if p = [] then some true else firstOf (fun s' => matchAt (p ++ [0]) (s' ++ [0])) s := by
  rw [← tryEach_eq _ hs]
  cases p with
  | nil => cases s <;> rfl
  | cons q p =>
    have hq : ¬ q = 0 := fun h => hp (h ▸ List.mem_cons_self)
    cases s <;> simp [matchAt, hq]

theorem tolower_ne {c : UInt8} (hc : c ≠ 0) : tolower c ≠ tolower 0 := fun h =>
  hc ((tolower_eq_zero_iff c).mp (h.trans ((tolower_eq_zero_iff 0).mpr rfl)))

/-- What is done with a letter. -/
def letter (c : UInt8) (f : Bytes → Option Bool) : Bytes → Option Bool
  | [] => some false
  | a :: s => if tolower c = tolower a then f s else some false

/-- A letter is never the end of the string. -/
theorem matchAt_letter {c : UInt8} (hc : c ≠ 0) (h42 : c ≠ 42) (h63 : c ≠ 63) (h92 : c ≠ 92)
    (p s : Bytes) :
    matchAt (c :: (p ++ [0])) (s ++ [0]) = letter c (fun s => matchAt (p ++ [0]) (s ++ [0])) s := by
  have h0 := tolower_ne hc
  cases s <;> rw [matchAt.eq_def] <;> simp [letter, hc, h42, h63, h92, h0]

/-- A letter behind a backslash. -/
theorem matchAt_quoted {c : UInt8} (hc : c ≠ 0) (p s : Bytes) :
    matchAt (92 :: c :: (p ++ [0])) (s ++ [0]) =
      letter c (fun s => matchAt (p ++ [0]) (s ++ [0])) s := by
  have h0 := tolower_ne hc
  cases s <;> rw [matchAt.eq_def] <;> simp [letter, h0]

theorem run_letter (d : Bool) (b : UInt8) (ts : List (Tok UInt8)) (s : Bytes) :
    run d (.lit b :: ts) s = letter b (run d ts) s := by
  cases s <;> rfl

theorem letter_congr {f g : Bytes → Option Bool} {c : UInt8} {s : Bytes} (hs : 0 ∉ s)
    (h : ∀ s, 0 ∉ s → f s = g s) : letter c f s = letter c g s := by
  cases s with
  | nil => rfl
  | cons a s =>
    rw [letter, letter, h s fun hm => hs (List.mem_cons_of_mem _ hm)]

/-- **The loop on the memory is the loop on the tokens.** -/
theorem matchAt_eq {p : Bytes} (hp : 0 ∉ p) {s : Bytes} (hs : 0 ∉ s) :
    matchAt (p ++ [0]) (s ++ [0]) = run (parse p).2 (parse p).1 s := by
  induction hn : p.length using Nat.strong_induction_on generalizing p s with
  | _ n ih =>
    cases p with
    | nil => exact matchAt_nil hs
    | cons c p =>
      rw [List.mem_cons, not_or] at hp
      have hlt : p.length < n := by
        rw [← hn]
        exact Nat.lt_succ_self _
      have ihp : ∀ s, 0 ∉ s → matchAt (p ++ [0]) (s ++ [0]) = run (parse p).2 (parse p).1 s :=
        fun s hs => ih p.length hlt hp.2 hs rfl
      rw [List.cons_append]
      by_cases h42 : c = 42
      · subst h42
        rw [matchAt_star hp.2 hs, parse_star, run]
        have hnil : p = [] ↔ (parse p).1 = [] ∧ (parse p).2 = false :=
          ⟨fun h => by rw [h]; exact ⟨rfl, rfl⟩, fun h => parse_eq_nil h.1 h.2⟩
        simp only [hnil]
        refine if_congr Iff.rfl rfl (firstOf_congr fun s' hs' => ihp s' fun hm => hs (hs'.mem hm))
      by_cases h63 : c = 63
      · subst h63
        rw [parse_any]
        cases s with
        | nil => rw [matchAt.eq_def]; rfl
        | cons a s =>
          rw [List.mem_cons, not_or] at hs
          rw [matchAt.eq_def]
          simpa [run, Ne.symm hs.1] using ihp s hs.2
      by_cases h92 : c = 92
      · subst h92
        cases p with
        | nil =>
          -- the backslash quotes the terminator, and the loop goes on behind it
          cases s with
          | nil => rfl
          | cons a s =>
            have ha := tolower_ne fun h : a = 0 => hs (h ▸ List.mem_cons_self)
            rw [List.nil_append, parse_backslash, matchAt.eq_def]
            simp [run, Ne.symm ha]
        | cons c' p' =>
          rw [List.mem_cons, not_or] at hp
          have hlt' : p'.length < n := Nat.lt_trans (Nat.lt_succ_self _) hlt
          rw [List.cons_append, matchAt_quoted (Ne.symm hp.2.1), parse_quoted, run_letter]
          exact letter_congr hs fun s hs => ih p'.length hlt' hp.2.2 hs rfl
      · rw [matchAt_letter (Ne.symm hp.1) h42 h63 h92, parse_lit h42 h63 h92, run_letter]
        exact letter_congr hs ihp

/-! ## What is matched -/

/-- The first end of the word with a result other than `some false` decides. -/
theorem firstOf_spec {b : Option Bool} {g : Bytes → Option Bool} (hb : b ≠ some false)
    (h : ∀ s, g s = some false ∨ g s = b) (s : Bytes) :
    (firstOf g s = some false ∨ firstOf g s = b) ∧
      (firstOf g s = b ↔ ∃ s₁ s₂, s = s₁ ++ s₂ ∧ s₂ ≠ [] ∧ g s₂ = b) := by
  induction s with
  | nil =>
    refine ⟨.inl rfl, fun he => absurd he.symm hb, ?_⟩
    rintro ⟨s₁, s₂, he, hne, -⟩
    exact absurd (List.append_eq_nil_iff.mp he.symm).2 hne
  | cons a s ih =>
    rcases h (a :: s) with hg | hg
    · rw [firstOf, hg]
      refine ⟨ih.1, ih.2.trans ⟨?_, ?_⟩⟩
      · rintro ⟨s₁, s₂, rfl, hne, he⟩
        exact ⟨a :: s₁, s₂, rfl, hne, he⟩
      · rintro ⟨s₁, s₂, he, hne, hs⟩
        cases s₁ with
        | nil =>
          rw [← show a :: s = s₂ from he, hg] at hs
          exact absurd hs.symm hb
        | cons a' s₁ => exact ⟨s₁, s₂, (List.cons.inj he).2, hne, hs⟩
    · have he : firstOf g (a :: s) = b := by
        rw [firstOf, hg]
        rcases b with _ | _ | _
        · rfl
        · exact absurd rfl hb
        · rfl
      exact ⟨.inr he, fun _ => ⟨[], a :: s, rfl, List.cons_ne_nil _ _, hg⟩, fun _ => he⟩

theorem getLast?_cons_ne {t : Tok UInt8} (ht : t ≠ .star) (ts : List (Tok UInt8)) :
    (t :: ts).getLast? ≠ some .star ↔ ts.getLast? ≠ some .star := by
  cases ts with
  | nil => simpa using ht
  | cons x ts => rw [List.getLast?_cons_cons]

/-- A backslash at the end: the loop reads behind the texts when it gets there at the end of the
string, and a star right before the backslash keeps it from that. -/
theorem run_dangling (ts : List (Tok UInt8)) (s : Bytes) :
    (run true ts s = some false ∨ run true ts s = none) ∧
      (run true ts s = none ↔ ts.getLast? ≠ some .star ∧ Matches SameLetter ts s) := by
  induction ts generalizing s with
  | nil => cases s <;> simp [run]
  | cons t ts ih =>
    cases t with
    | star =>
      have hrun : run true (.star :: ts) s = firstOf (run true ts) s := by
        rw [run, if_neg (by simp)]
      rw [hrun]
      have hspec := firstOf_spec (by simp) (fun s => (ih s).1) s
      refine ⟨hspec.1, hspec.2.trans ?_⟩
      cases ts with
      | nil =>
        refine ⟨?_, fun h => absurd rfl h.1⟩
        rintro ⟨s₁, s₂, -, hne, hr⟩
        simp [run, hne] at hr
      | cons x ts =>
        rw [List.getLast?_cons_cons, matches_star_iff]
        constructor
        · rintro ⟨s₁, s₂, rfl, -, hr⟩
          have hm := (ih s₂).2.mp hr
          exact ⟨hm.1, s₁, s₂, rfl, hm.2⟩
        · rintro ⟨hlast, s₁, s₂, rfl, hm⟩
          refine ⟨s₁, s₂, rfl, ?_, (ih s₂).2.mpr ⟨hlast, hm⟩⟩
          rintro rfl
          -- only stars match nothing, and there is another token at the end
          obtain ⟨y, hy⟩ : ∃ y, (x :: ts).getLast? = some y := ⟨_, List.getLast?_eq_some_getLast (by simp)⟩
          have hstar := matches_nil_iff.mp hm y (List.mem_of_getLast? hy)
          exact hlast (hstar ▸ hy)
    | any =>
      rw [getLast?_cons_ne (by simp)]
      cases s with
      | nil => simp [run]
      | cons a s =>
        rw [matches_any_cons]
        exact ih s
    | lit b =>
      rw [getLast?_cons_ne (by simp)]
      cases s with
      | nil => simp [run]
      | cons a s =>
        rw [matches_lit_cons, run]
        by_cases hb : tolower b = tolower a
        · rw [if_pos hb]
          refine ⟨(ih s).1, (ih s).2.trans ?_⟩
          exact and_congr_right fun _ => ⟨fun h => ⟨hb, h⟩, fun h => h.2⟩
        · rw [if_neg hb]
          exact ⟨.inl rfl, fun h => (by cases h), fun h => absurd h.2.1 hb⟩

/-- Without a backslash at the end: two or more stars at the end want a character. -/
@[simp] def norm : List (Tok UInt8) → List (Tok UInt8)
  | [] => []
  | t :: ts =>
    if t = .star ∧ ts ≠ [] ∧ ∀ x ∈ ts, x = .star then [.any, .star] else t :: norm ts

theorem norm_cons_of_ne {t : Tok UInt8} (ht : t ≠ .star) (ts : List (Tok UInt8)) :
    norm (t :: ts) = t :: norm ts := by
  rw [norm, if_neg fun h => ht h.1]

/-- Only stars are still only stars. -/
theorem star_of_norm {ts : List (Tok UInt8)} (h : ∀ x ∈ norm ts, x = .star) : ∀ x ∈ ts, x = .star := by
  induction ts with
  | nil => exact h
  | cons t ts ih =>
    rw [norm] at h
    split at h
    · exact absurd (h .any List.mem_cons_self) (by simp)
    · rw [List.forall_mem_cons] at h ⊢
      exact ⟨h.1, ih h.2⟩

theorem norm_stars {ts : List (Tok UInt8)} (h : ∀ x ∈ ts, x = .star) (hne : ts ≠ []) :
    norm ts = [.star] ∨ norm ts = [.any, .star] := by
  cases ts with
  | nil => exact absurd rfl hne
  | cons t ts =>
    rw [List.forall_mem_cons] at h
    obtain ⟨rfl, h⟩ := h
    rw [norm]
    by_cases hts : ts = []
    · subst hts
      exact .inl rfl
    · exact .inr (if_pos ⟨rfl, hts, h⟩)

theorem matches_stars_of_ne_nil {ts : List (Tok UInt8)} (h : ts = [.star] ∨ ts = [.any, .star])
    {s : Bytes} (hs : s ≠ []) : Matches SameLetter ts s := by
  have hstar (s : Bytes) : Matches SameLetter [.star] s :=
    matches_star_iff.mpr ⟨s, [], (List.append_nil s).symm, .nil⟩
  rcases h with rfl | rfl
  · exact hstar s
  · cases s with
    | nil => exact absurd rfl hs
    | cons a s => exact .any a (hstar s)

/-- Without a backslash at the end the loop stays within the texts, and it matches what the
normal form of the pattern does. -/
theorem run_plain (ts : List (Tok UInt8)) (s : Bytes) :
    (run false ts s = some false ∨ run false ts s = some true) ∧
      (run false ts s = some true ↔ Matches SameLetter (norm ts) s) := by
  induction ts generalizing s with
  | nil => cases s <;> simp [run, norm]
  | cons t ts ih =>
    cases t with
    | star =>
      by_cases hnil : ts = []
      · subst hnil
        have hm : Matches SameLetter [.star] s :=
          matches_star_iff.mpr ⟨s, [], (List.append_nil s).symm, .nil⟩
        have hr : run false [.star] s = some true := by simp [run]
        exact ⟨.inr hr, fun _ => hm, fun _ => hr⟩
      · have hrun : run false (.star :: ts) s = firstOf (run false ts) s := by
          rw [run, if_neg fun h => hnil h.1]
        have hspec := firstOf_spec (by simp) (fun s => (ih s).1) s
        rw [hrun]
        refine ⟨hspec.1, hspec.2.trans ?_⟩
        by_cases hall : ∀ x ∈ ts, x = .star
        · -- nothing but stars follows, and some character is wanted
          have hts := norm_stars hall hnil
          rw [norm, if_pos ⟨rfl, hnil, hall⟩]
          constructor
          · rintro ⟨s₁, s₂, rfl, hne, -⟩
            exact matches_stars_of_ne_nil (.inr rfl) fun h => hne (List.append_eq_nil_iff.mp h).2
          · intro hm
            have hne : s ≠ [] := by
              rintro rfl
              exact not_matches_any_nil hm
            exact ⟨[], s, rfl, hne, (ih s).2.mpr (matches_stars_of_ne_nil hts hne)⟩
        · rw [norm, if_neg fun h => hall h.2.2, matches_star_iff]
          constructor
          · rintro ⟨s₁, s₂, rfl, -, hr⟩
            exact ⟨s₁, s₂, rfl, (ih s₂).2.mp hr⟩
          · rintro ⟨s₁, s₂, rfl, hm⟩
            refine ⟨s₁, s₂, rfl, ?_, (ih s₂).2.mpr hm⟩
            rintro rfl
            exact hall (star_of_norm (matches_nil_iff.mp hm))
    | any =>
      rw [norm_cons_of_ne (by simp)]
      cases s with
      | nil => simp [run]
      | cons a s =>
        rw [matches_any_cons]
        exact ih s
    | lit b =>
      rw [norm_cons_of_ne (by simp)]
      cases s with
      | nil => simp [run]
      | cons a s =>
        rw [matches_lit_cons, run]
        by_cases hb : tolower b = tolower a
        · rw [if_pos hb]
          exact ⟨(ih s).1, (ih s).2.trans ⟨fun h => ⟨hb, h⟩, fun h => h.2⟩⟩
        · rw [if_neg hb]
          exact ⟨.inl rfl, fun h => (by cases h), fun h => absurd h.1 hb⟩

/-! ## The matching of the lists -/

theorem run_ne_some_true (ts : List (Tok UInt8)) (s : Bytes) : run true ts s ≠ some true := by
  rcases (run_dangling ts s).1 with h | h <;> simp [h]

/-- A star matches if the rest matches some end of the string. -/
theorem run_star_iff (d : Bool) {ts : List (Tok UInt8)} (hne : ¬ (ts = [] ∧ d = false)) (s : Bytes) :
    run d (.star :: ts) s = some true ↔
      ∃ s₁ s₂, s = s₁ ++ s₂ ∧ s₂ ≠ [] ∧ run d ts s₂ = some true := by
  cases d with
  | true =>
    refine ⟨fun h => absurd h (run_ne_some_true _ s), ?_⟩
    rintro ⟨s₁, s₂, -, -, h⟩
    exact absurd h (run_ne_some_true ts s₂)
  | false =>
    rw [run, if_neg hne]
    exact (firstOf_spec (by simp) (fun s => (run_plain ts s).1) s).2

/-- `patternMatch` on lists says what the code says where that has a result. -/
theorem patternMatch_iff_run (s p : Bytes) :
    patternMatch s p = true ↔ run (parse p).2 (parse p).1 s = some true := by
  induction hn : p.length using Nat.strong_induction_on generalizing p s with
  | _ n ih =>
    cases p with
    | nil => cases s <;> simp [patternMatch, parse, run]
    | cons c p =>
      have hlt : p.length < n := by
        rw [← hn]
        exact Nat.lt_succ_self _
      have ihp : ∀ s, patternMatch s p = true ↔ run (parse p).2 (parse p).1 s = some true :=
        fun s => ih p.length hlt s p rfl
      by_cases h42 : c = 42
      · subst h42
        rw [parse_star, patternMatch]
        by_cases hp : p = []
        · subst hp
          simp [parse, run]
        · rw [run_star_iff _ fun h => hp (parse_eq_nil h.1 h.2)]
          simp only [List.isEmpty_iff, hp, if_false, List.any_eq_true, List.mem_range, ihp]
          constructor
          · rintro ⟨i, hi, h⟩
            refine ⟨s.take i, s.drop i, (List.take_append_drop i s).symm, ?_, h⟩
            exact fun hnil => absurd (List.drop_eq_nil_iff.mp hnil) (by omega)
          · rintro ⟨s₁, s₂, rfl, hne, h⟩
            have hpos := List.length_pos_iff.mpr hne
            refine ⟨s₁.length, by rw [List.length_append]; omega, ?_⟩
            rwa [List.drop_left' rfl]
      by_cases h63 : c = 63
      · subst h63
        rw [parse_any]
        cases s with
        | nil => simp [patternMatch, run]
        | cons a s => simpa [patternMatch, run] using ihp s
      by_cases h92 : c = 92
      · subst h92
        cases p with
        | nil => cases s <;> simp [patternMatch, run]
        | cons c' p' =>
          have hlt' : p'.length < n := Nat.lt_trans (Nat.lt_succ_self _) hlt
          rw [parse_quoted]
          cases s with
          | nil => simp [patternMatch, run]
          | cons a s =>
            have hp' := ih p'.length hlt' s p' rfl
            by_cases hb : tolower c' = tolower a <;> simp [patternMatch, run, hb, hp']
      · rw [parse_lit h42 h63 h92]
        cases s with
        | nil => simp [patternMatch, run, h92]
        | cons a s => by_cases hb : tolower c = tolower a <;> simp [patternMatch, run, hb, ihp s, h92]

/-! ## Where it goes wrong -/

/-- A pattern and the stars at its end. -/
theorem exists_stars (ts : List (Tok UInt8)) :
    ∃ q k, ts = q ++ List.replicate k .star ∧ q.getLast? ≠ some .star := by
  induction ts using List.reverseRecOn with
  | nil => exact ⟨[], 0, rfl, by simp⟩
  | append_singleton ts x ih =>
    by_cases hx : x = .star
    · obtain ⟨q, k, rfl, hq⟩ := ih
      refine ⟨q, k + 1, ?_, hq⟩
      rw [hx, List.replicate_succ', List.append_assoc]
    · exact ⟨ts ++ [x], 0, (List.append_nil _).symm, by simpa using hx⟩

theorem norm_append {q : List (Tok UInt8)} (hq : q.getLast? ≠ some .star) (k : Nat) :
    norm (q ++ List.replicate k .star) = q ++ norm (List.replicate k .star) := by
  induction q with
  | nil => rfl
  | cons t q ih =>
    have hnot : ¬ (t = .star ∧ q ++ List.replicate k .star ≠ [] ∧
        ∀ x ∈ q ++ List.replicate k .star, x = .star) := by
      rintro ⟨rfl, -, hall⟩
      -- the last token before the stars is another one
      obtain ⟨y, hy⟩ : ∃ y, (Tok.star :: q).getLast? = some y :=
        ⟨_, List.getLast?_eq_some_getLast (List.cons_ne_nil _ _)⟩
      have hstar : y = .star := by
        rcases List.mem_cons.mp (List.mem_of_getLast? hy) with rfl | hm
        · rfl
        · exact hall y (List.mem_append_left _ hm)
      exact hq (hstar ▸ hy)
    have hq' : q.getLast? ≠ some .star := by
      cases q with
      | nil => simp
      | cons x q => rwa [List.getLast?_cons_cons] at hq
    rw [List.cons_append, norm, if_neg hnot, ih hq', List.cons_append]

theorem norm_replicate (n : Nat) :
    norm (List.replicate (n + 2) .star) = [.any, .star] := by
  rw [List.replicate_succ, norm, if_pos]
  exact ⟨rfl, by simp, fun x hx => List.eq_of_mem_replicate hx⟩

/-- The pattern ends with two or more stars, the string matches what stands before them, and no
beginning of it that leaves a character for them does. -/
def Starved (ts : List (Tok UInt8)) (s : Bytes) : Prop :=
  ∃ q n, ts = q ++ List.replicate (n + 2) .star ∧ q.getLast? ≠ some .star ∧
    Matches SameLetter q s ∧ ∀ s₁ s₂, s = s₁ ++ s₂ → Matches SameLetter q s₁ → s₂ = []

theorem matches_any_star_iff (s : Bytes) : Matches SameLetter [.any, .star] s ↔ s ≠ [] := by
  refine ⟨?_, matches_stars_of_ne_nil (.inr rfl)⟩
  rintro h rfl
  exact not_matches_any_nil h

theorem norm_starved {q : List (Tok UInt8)} (hq : q.getLast? ≠ some .star) (n : Nat) :
    norm (q ++ List.replicate (n + 2) .star) = q ++ [.any, .star] := by
  rw [norm_append hq, norm_replicate]

/-- The normal form matches less exactly where the stars get nothing. -/
theorem matches_norm_iff (ts : List (Tok UInt8)) (s : Bytes) :
    Matches SameLetter (norm ts) s ↔ Matches SameLetter ts s ∧ ¬ Starved ts s := by
  obtain ⟨q, k, rfl, hq⟩ := exists_stars ts
  have hstars (n : Nat) (s : Bytes) : Matches SameLetter (List.replicate (n + 1) .star) s := by
    rw [List.replicate_succ, matches_star_iff]
    exact ⟨s, [], (List.append_nil s).symm, matches_nil_iff.mpr fun x hx => List.eq_of_mem_replicate hx⟩
  constructor
  · intro h
    constructor
    · rcases k with _ | _ | n
      · rwa [norm_append hq] at h
      · rwa [norm_append hq] at h
      · rw [norm_starved hq] at h
        obtain ⟨s₁, s₂, rfl, h₁, -⟩ := matches_append_iff.mp h
        exact matches_append_iff.mpr ⟨s₁, s₂, rfl, h₁, hstars (n + 1) s₂⟩
    · rintro ⟨q', n, he, hq', -, hall⟩
      rw [he, norm_starved hq'] at h
      obtain ⟨s₁, s₂, hs, h₁, h₂⟩ := matches_append_iff.mp h
      exact (matches_any_star_iff s₂).mp h₂ (hall s₁ s₂ hs h₁)
  · rintro ⟨h, hnot⟩
    rcases k with _ | _ | n
    · rwa [norm_append hq]
    · rwa [norm_append hq]
    · rw [norm_starved hq]
      by_contra hn
      -- nothing is ever left for the stars
      have hall : ∀ s₁ s₂, s = s₁ ++ s₂ → Matches SameLetter q s₁ → s₂ = [] := by
        intro s₁ s₂ hs h₁
        by_contra hne
        exact hn (matches_append_iff.mpr ⟨s₁, s₂, hs, h₁, (matches_any_star_iff s₂).mpr hne⟩)
      obtain ⟨s₁, s₂, hs, h₁, -⟩ := matches_append_iff.mp h
      have hnil := hall s₁ s₂ hs h₁
      rw [hnil, List.append_nil] at hs
      exact hnot ⟨q, n, rfl, hq, hs ▸ h₁, hall⟩

/-- The pattern ends with a backslash, no star stands before it, and the string matches the rest. -/
def Overrun (ts : List (Tok UInt8)) (s : Bytes) : Prop :=
  ts.getLast? ≠ some .star ∧ Matches SameLetter ts s

/-- What goes wrong with a pattern that ends with a backslash, or with one that does not. -/
def Missed (string pattern : Bytes) : Prop :=
  if (parse pattern).2 then Overrun (parse pattern).1 string else Starved (parse pattern).1 string

/-- A match that does not read behind the texts has the result of `patternMatch`. -/
theorem matchAt_patternMatch {p s : Bytes} (hp : 0 ∉ p) (hs : 0 ∉ s)
    (h : (parse p).2 = true → ¬ Overrun (parse p).1 s) :
    matchAt (p ++ [0]) (s ++ [0]) = some (patternMatch s p) := by
  have hiff := patternMatch_iff_run s p
  rw [matchAt_eq hp hs]
  have hresult : run (parse p).2 (parse p).1 s = some false ∨
      run (parse p).2 (parse p).1 s = some true := by
    cases hd : (parse p).2 with
    | false => exact (run_plain _ s).1
    | true =>
      obtain ⟨hr, hnone⟩ := run_dangling (parse p).1 s
      exact .inl (hr.resolve_right fun hn => h hd (hnone.mp hn))
  rcases hresult with hr | hr
  · rw [hr] at hiff
    have hfalse : patternMatch s p = false := by simpa using hiff
    rw [hr, hfalse]
  · rw [hr, hiff.mpr hr]

/-- The result of a match that stays within the texts and says whether the string is in the language
of the pattern. -/
def Correct (string : Option Ipc.CStr) (pattern : Ipc.CStr) (result : Option Bool) : Prop :=
  ∃ b, result = some b ∧ (b = true ↔ InLanguage (textOf string).1 pattern.1)

/-- **Both copies agree, and they are right exactly if the pattern is not missed.** -/
theorem patternMatch_correct_iff (string : Option Ipc.CStr) (pattern : Ipc.CStr) :
    configPatternMatch string pattern = accessPatternMatch string pattern ∧
      (Correct string pattern (accessPatternMatch string pattern) ↔
        ¬ Missed (textOf string).1 pattern.1) := by
  refine ⟨rfl, ?_⟩
  unfold Correct Missed InLanguage accessPatternMatch memory
  rw [matchAt_eq pattern.2 (textOf string).2]
  generalize (textOf string).1 = s
  generalize (parse pattern.1).1 = ts
  cases (parse pattern.1).2 with
  | true =>
    obtain ⟨hr, hiff⟩ := run_dangling ts s
    rw [if_pos rfl, Overrun, ← hiff]
    constructor
    · rintro ⟨b, hb, -⟩ hnone
      rw [hb] at hnone
      cases hnone
    · intro hnone
      exact ⟨false, hr.resolve_right hnone, fun h => (by cases h), fun h => (by cases h.1)⟩
  | false =>
    obtain ⟨hr, hiff⟩ := run_plain ts s
    rw [matches_norm_iff] at hiff
    rw [if_neg Bool.false_ne_true]
    constructor
    · rintro ⟨b, hb, hlang⟩ hst
      have hm : Matches SameLetter ts s := by
        obtain ⟨q, n, rfl, -, h, -⟩ := hst
        refine matches_append_iff.mpr ⟨s, [], (List.append_nil s).symm, h, ?_⟩
        exact matches_nil_iff.mpr fun x hx => List.eq_of_mem_replicate hx
      have htrue : b = true := hlang.mpr ⟨rfl, hm⟩
      exact (hiff.mp (htrue ▸ hb)).2 hst
    · intro hst
      rcases hr with hr | hr
      · refine ⟨false, hr, fun h => (by cases h), fun h => ?_⟩
        cases hr.symm.trans (hiff.mpr ⟨h.2, hst⟩)
      · exact ⟨true, hr, fun _ => ⟨rfl, (hiff.mp hr).1⟩, fun _ => rfl⟩

example : accessPatternMatch none ⟨[92], by decide⟩ = none := by decide

/-- The string `a` and the pattern `a**`. -/
theorem not_patternMatch_correct :
    ¬ ∀ string pattern, Correct string pattern (accessPatternMatch string pattern) := by
  intro h
  obtain ⟨b, hb, hiff⟩ := h (some ⟨[97], by decide⟩) ⟨[97, 42, 42], by decide⟩
  have hfalse : accessPatternMatch (some ⟨[97], by decide⟩) ⟨[97, 42, 42], by decide⟩ = some false := by
    decide
  cases hfalse.symm.trans hb
  have hin : InLanguage [97] [97, 42, 42] := ⟨rfl, .lit rfl (.skip (.skip .nil))⟩
  exact Bool.false_ne_true (hiff.mpr hin)

end Kdm.Xdmcp
