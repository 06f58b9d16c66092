import Mathlib.Algebra.Ring.Int.Defs
import Mathlib.Data.List.Basic

/-!
# printf, with extensions

`doPrint` of `printf.c` is behind the log of the daemon, the texts it puts together and its answers on
the control sockets.  Its extensions are quoted strings and arrays.

* `fmtint`, `fmtstr` — an integer and a string.
* `Piece`, `parse` — the format; what it consists of does not depend on the arguments.
* `doPrint` — the output; `none` if an argument is missing, or not of the type that the format says.

A `char` is signed, an `int` has 32 bits and a `long` 64.
-/

namespace Kdm.Printf

abbrev Text := List UInt8

def chr (c : Char) : UInt8 := UInt8.ofNat c.toNat

def str (s : String) : Text := s.toList.map chr

/-- `'\n'`. -/
def NL : UInt8 := 10

/-- The bits of `flags`. -/
structure Flags where
  minus : Bool
  plus : Bool
  space : Bool
  num : Bool
  zero : Bool
  upcase : Bool
  unsigned : Bool
  squote : Bool
  dquote : Bool
  backsl : Bool
  array : Bool
  colon : Bool
deriving DecidableEq

def Flags.none : Flags :=
  ⟨false, false, false, false, false, false, false, false, false, false, false, false⟩

/-! ## Integers -/

/-- The digits, in an array with the given number of places. -/
def convert (ctab : Text) (base : Nat) : Nat → Nat → Text
  | 0, _ => []
  | places + 1, uvalue =>
    (if uvalue / base = 0 then [] else convert ctab base places (uvalue / base)) ++
      [ctab.getD (uvalue % base) 0]

/-- `sizeof(convert)`. -/
def CONVERT : Nat := 20

def ctab (flags : Flags) : Text :=
  if flags.upcase then str "0123456789ABCDEF" else str "0123456789abcdef"

def isNegative (value : BitVec 64) (flags : Flags) : Bool := !flags.unsigned && value.toInt < 0

def uvalue (value : BitVec 64) (flags : Flags) : Nat :=
  if isNegative value flags then (-value).toNat else value.toNat

def signvalue (value : BitVec 64) (flags : Flags) : Text :=
  if flags.unsigned then []
  else if isNegative value flags then [chr '-']
  else if flags.plus then [chr '+']
  else if flags.space then [chr ' ']
  else []

def fmtint (value : BitVec 64) (base : Nat) (min max : Int) (flags : Flags) : Text :=
  let max := if max < 0 then 0 else max
  let digits := convert (ctab flags) base CONVERT (uvalue value flags)
  let sign := signvalue value flags
  let zpadlen := (max - digits.length).toNat
  let spadlen := (min - (if max > digits.length then max else digits.length) - sign.length -
    (if flags.num then 2 else 0)).toNat
  let zeros := if flags.zero then Max.max zpadlen spadlen else zpadlen
  let spaces := if flags.zero then 0 else spadlen
  (if flags.minus then [] else List.replicate spaces (chr ' ')) ++ sign ++
    (if flags.num then str "0x" else []) ++ List.replicate zeros (chr '0') ++ digits ++
    (if flags.minus then List.replicate spaces (chr ' ') else [])

/-! ## Strings -/

/-- The letter behind the backslash. -/
def letter (ch : UInt8) : Option UInt8 :=
  if ch = 13 then some (chr 'r')
  else if ch = 10 then some (chr 'n')
  else if ch = 9 then some (chr 't')
  else if ch = 7 then some (chr 'a')
  else if ch = 8 then some (chr 'b')
  else if ch = 11 then some (chr 'v')
  else if ch = 12 then some (chr 'f')
  else none

/-- A `char` as a number. -/
def schar (ch : UInt8) : Int := if ch.toNat < 128 then ch.toNat else (ch.toNat : Int) - 256

def Flags.quotes (flags : Flags) : Bool := flags.squote || flags.dquote || flags.backsl

/-- One character of a quoted string; `curcol` is its place, and from `lastcol` on there are only
blanks. -/
def quoteChar (flags : Flags) (lastcol curcol : Nat) (ch : UInt8) : Text :=
  match letter ch with
  | some l => [chr '\\', l]
  | none =>
    if schar ch < 32 ∨ (0x7f ≤ ch.toNat ∧ ch.toNat < 0xa0) then
      chr '\\' :: fmtint (BitVec.ofNat 64 ch.toNat) 8 3 3 { Flags.none with zero := true }
    else if (ch = chr '\'' ∧ flags.squote = true) ∨ (ch = chr '"' ∧ flags.dquote = true) ∨
        (ch = chr ' ' ∧ flags.backsl = true ∧ (curcol = 0 ∨ lastcol ≤ curcol)) ∨ ch = chr '\\' then
      [chr '\\', ch]
    else [ch]

/-- The loop over the string. -/
def fmtchars (flags : Flags) (lastcol : Nat) : Nat → Text → Text
  | _, [] => []
  | curcol, ch :: cs =>
    (if flags.quotes then quoteChar flags lastcol curcol ch else [ch]) ++
      fmtchars flags lastcol (curcol + 1) cs

/-- The quote, if there is one. -/
def quote (flags : Flags) : Text :=
  if flags.squote then [chr '\''] else if flags.dquote then [chr '"'] else []

def lastcol (flags : Flags) (s : Text) : Nat :=
  if flags.squote || flags.dquote then 0
  else if flags.backsl then s.length - (s.reverse.takeWhile (· = chr ' ')).length
  else 0

def fmtstr (value : Option Text) (flags : Flags) (min max : Int) : Text :=
  match value with
  | none => if flags.squote || flags.dquote then str "NULL" else str "(null)"
  | some value =>
    let s := value.take (max % 2 ^ 32).toNat
    let padlen := (min - s.length).toNat
    (if flags.minus then [] else List.replicate padlen (chr ' ')) ++ quote flags ++
      fmtchars flags (lastcol flags s) 0 s ++ quote flags ++
      (if flags.minus then List.replicate padlen (chr ' ') else [])

/-! ## The format -/

/-- A number in the format, or one from the arguments. -/
inductive Width
  | num (n : Int)
  | star
deriving DecidableEq

/-- The modifiers of an array; `len` has the lengths one after the other. -/
structure ArrSpec where
  len : List Width
  arpr : Text
  arsf : Text
  arepr : Text
  aresf : Text
  aresp : Text
deriving DecidableEq

def ArrSpec.start : ArrSpec := ⟨[], [], [], [], [], [chr ' ']⟩

inductive Size
  | int
  | byte
  | short
  | long
deriving DecidableEq

inductive Conv
  | percent
  | m
  | c
  | s
  | u
  | d
  | X
  | x
  | p
  | other
deriving DecidableEq

structure Spec where
  flags : Flags
  min : Width
  max : Width
  arr : ArrSpec
  size : Size
  conv : Conv
deriving DecidableEq

inductive Piece
  | lit (ch : UInt8)
  | conv (spec : Spec)
deriving DecidableEq

def isdigit (ch : UInt8) : Bool := 48 ≤ ch.toNat && ch.toNat ≤ 57

def digit (ch : UInt8) : Int := (ch.toNat : Int) - 48

def setFlag (flags : Flags) (ch : UInt8) : Option Flags :=
  if ch = chr '#' then some { flags with num := true }
  else if ch = chr '-' then some { flags with minus := true }
  else if ch = chr '+' then some { flags with plus := true }
  else if ch = chr ' ' then some { flags with space := true }
  else if ch = chr '0' then some { flags with zero := true }
  else if ch = chr '"' then some { flags with dquote := true }
  else if ch = chr '\'' then some { flags with squote := true }
  else if ch = chr '\\' then some { flags with backsl := true }
  else none

/-- The loop over the flags; `none` if the format ends there, as in the functions below. -/
def scanFlags : Flags → Text → Option (Flags × UInt8 × Text)
  | _, [] => none
  | flags, ch :: fmt =>
    match setFlag flags ch with
    | some flags => scanFlags flags fmt
    | none => some (flags, ch, fmt)

def scanMin : Int → UInt8 → Text → Option (Width × UInt8 × Text)
  | min, ch, [] => if isdigit ch ∨ ch = chr '*' then none else some (.num min, ch, [])
  | min, ch, c :: fmt =>
    if isdigit ch then scanMin (10 * min + digit ch) c fmt
    else if ch = chr '*' then some (.star, c, fmt)
    else some (.num min, ch, c :: fmt)

/-- Behind the dot. -/
def scanPrec : Int → Text → Option (Width × UInt8 × Text)
  | _, [] => none
  | max, ch :: fmt =>
    if isdigit ch then scanPrec (10 * max + digit ch) fmt
    else if ch = chr '*' then
      match fmt with
      | [] => none
      | c :: fmt => some (.star, c, fmt)
    else some (.num max, ch, fmt)

def scanMax (ch : UInt8) (fmt : Text) : Option (Width × UInt8 × Text) :=
  if ch = chr '.' then scanPrec 0 fmt else some (.num (-1), ch, fmt)

/-- The length of an array. -/
def scanLen : Int → UInt8 → Text → Option (Int × UInt8 × Text)
  | _, _, [] => none
  | arlen, ch, c :: fmt =>
    if isdigit c then scanLen (10 * (arlen + digit ch)) c fmt else some (arlen + digit ch, c, fmt)

/-- Up to the character `sch`. -/
def scanText (sch : UInt8) : Text → Option (Text × Text)
  | [] => none
  | ch :: fmt =>
    if ch = sch then some ([], fmt) else (scanText sch fmt).map fun r => (ch :: r.1, r.2)

/-- The label `rar`: a text between two characters that are the same. -/
def rar : Text → Option (Text × Text)
  | [] => none
  | sch :: fmt => scanText sch fmt

/-- What a modifier of an array makes of it, and where the format goes on; `none` is a character that is no
modifier. -/
def modifier (a : ArrSpec) (flags : Flags) (ch : UInt8) (fmt : Text) :
    Option (Option (ArrSpec × Flags × Text)) :=
  if ch = chr ':' then some (some (a, { flags with colon := true }, fmt))
  else if ch = chr '*' then some (some ({ a with len := a.len ++ [.star] }, flags, fmt))
  else if ch = chr '(' then some ((rar fmt).map fun r => ({ a with arpr := r.1 }, flags, r.2))
  else if ch = chr ')' then some ((rar fmt).map fun r => ({ a with arsf := r.1 }, flags, r.2))
  else if ch = chr '<' then some ((rar fmt).map fun r => ({ a with arepr := r.1 }, flags, r.2))
  else if ch = chr '>' then some ((rar fmt).map fun r => ({ a with aresf := r.1 }, flags, r.2))
  else if ch = chr '|' then some ((rar fmt).map fun r => ({ a with aresp := r.1 }, flags, r.2))
  else if ch = chr ',' then some (some ({ a with aresp := [chr ','] }, flags, fmt))
  else if ch = chr '\x7b' then
    some (some ({ a with aresp := [], arpr := str "\x7b", arepr := str " ", arsf := str " \x7d" },
      flags, fmt))
  else none

/-- A length in front of a modifier. -/
def scanDigits (a : ArrSpec) (ch : UInt8) (fmt : Text) : Option (ArrSpec × UInt8 × Text) :=
  if isdigit ch then
    (scanLen 0 ch fmt).map fun r => ({ a with len := a.len ++ [.num r.1] }, r.2.1, r.2.2)
  else some (a, ch, fmt)

theorem length_scanLen {n m : Int} {ch c : UInt8} {fmt r : Text}
    (h : scanLen n ch fmt = some (m, c, r)) : r.length ≤ fmt.length := by
  induction fmt generalizing n ch with
  | nil => cases h
  | cons d fmt ih =>
    simp only [scanLen] at h
    split at h
    · have := ih h
      simp only [List.length_cons]
      omega
    · cases h
      simp

theorem length_scanText {sch : UInt8} {fmt s r : Text} (h : scanText sch fmt = some (s, r)) :
    r.length ≤ fmt.length := by
  induction fmt generalizing s with
  | nil => cases h
  | cons d fmt ih =>
    simp only [scanText] at h
    split at h
    · cases h
      simp
    · obtain ⟨x, hx, he⟩ := Option.map_eq_some_iff.mp h
      have hr : x.2 = r := congrArg Prod.snd he
      have := ih (s := x.1) (hr ▸ hx)
      simp only [List.length_cons]
      omega

theorem length_rar {fmt : Text} {x : Text × Text} (h : rar fmt = some x) :
    x.2.length ≤ fmt.length := by
  cases fmt with
  | nil => cases h
  | cons sch fmt =>
    have := length_scanText (s := x.1) (r := x.2) h
    simp only [List.length_cons]
    omega

theorem length_scanDigits {a b : ArrSpec} {ch c : UInt8} {fmt r : Text}
    (h : scanDigits a ch fmt = some (b, c, r)) : r.length ≤ fmt.length := by
  unfold scanDigits at h
  split at h
  · obtain ⟨x, hx, he⟩ := Option.map_eq_some_iff.mp h
    cases he
    exact length_scanLen hx
  · cases h
    simp

theorem length_modifier {a b : ArrSpec} {flags flags' : Flags} {ch : UInt8} {fmt r : Text}
    (h : modifier a flags ch fmt = some (some (b, flags', r))) : r.length ≤ fmt.length := by
  have hrar : ∀ f : Text × Text → ArrSpec,
      (rar fmt).map (fun x => (f x, flags, x.2)) = some (b, flags', r) →
        r.length ≤ fmt.length := by
    intro f he
    obtain ⟨x, hx, hf⟩ := Option.map_eq_some_iff.mp he
    cases hf
    exact length_rar hx
  have hsame : ∀ x fl, some (some (x, fl, fmt)) = some (some (b, flags', r)) →
      r.length ≤ fmt.length := by
    intro x fl he
    cases he
    simp
  unfold modifier at h
  split at h
  · exact hsame _ _ h
  split at h
  · exact hsame _ _ h
  split at h
  · exact hrar _ (Option.some.inj h)
  split at h
  · exact hrar _ (Option.some.inj h)
  split at h
  · exact hrar _ (Option.some.inj h)
  split at h
  · exact hrar _ (Option.some.inj h)
  split at h
  · exact hrar _ (Option.some.inj h)
  split at h
  · exact hsame _ _ h
  split at h
  · exact hsame _ _ h
  · cases h

/-- The loop over the modifiers. -/
def scanArray (a : ArrSpec) (flags : Flags) (fmt : Text) :
    Option (ArrSpec × Flags × UInt8 × Text) :=
  match fmt with
  | [] => none
  | ch :: fmt =>
    match _hd : scanDigits a ch fmt with
    | none => none
    | some (a, ch, fmt') =>
      match _hm : modifier a flags ch fmt' with
      | none => some (a, flags, ch, fmt')
      | some none => none
      | some (some (a, flags, fmt'')) => scanArray a flags fmt''
termination_by fmt.length
decreasing_by
  have h1 := length_scanDigits _hd
  have h2 := length_modifier _hm
  simp only [List.length_cons]
  omega

theorem length_scanArray {a b : ArrSpec} {flags flags' : Flags} {fmt r : Text} {ch : UInt8}
    (h : scanArray a flags fmt = some (b, flags', ch, r)) : r.length ≤ fmt.length := by
  -- each turn takes a character, so the length bounds the number of turns
  obtain ⟨n, hn⟩ : ∃ n, fmt.length ≤ n := ⟨_, Nat.le_refl _⟩
  induction n generalizing a flags fmt with
  | zero =>
    rw [List.eq_nil_of_length_eq_zero (Nat.le_zero.mp hn), scanArray] at h
    cases h
  | succ n ih =>
    cases fmt with
    | nil =>
      rw [scanArray] at h
      cases h
    | cons c fmt =>
      rw [scanArray] at h
      rw [List.length_cons] at hn ⊢
      split at h
      · cases h
      · rename_i hd
        have h1 := length_scanDigits hd
        split at h
        · cases h
          omega
        · cases h
        · rename_i hm
          have h2 := length_modifier hm
          have h3 := ih h (by omega)
          omega

/-- The last one counts. -/
def scanSize (size : Size) : UInt8 → Text → Option (Size × UInt8 × Text)
  | ch, [] => if ch = chr 'h' ∨ ch = chr 'l' then none else some (size, ch, [])
  | ch, c :: fmt =>
    if ch = chr 'h' then
      if c = chr 'h' then
        match fmt with
        | [] => none
        | d :: fmt => scanSize .byte d fmt
      else scanSize .short c fmt
    else if ch = chr 'l' then scanSize .long c fmt
    else some (size, ch, c :: fmt)

def convOf (ch : UInt8) : Conv :=
  if ch = chr '%' then .percent
  else if ch = chr 'm' then .m
  else if ch = chr 'c' then .c
  else if ch = chr 's' then .s
  else if ch = chr 'u' then .u
  else if ch = chr 'd' then .d
  else if ch = chr 'i' then .d
  else if ch = chr 'X' then .X
  else if ch = chr 'x' then .x
  else if ch = chr 'p' then .p
  else .other

/-- The modifiers behind the bracket, if there is one. -/
def scanArr (flags : Flags) (ch : UInt8) (fmt : Text) : Option (ArrSpec × Flags × UInt8 × Text) :=
  if ch = chr '[' then scanArray .start { flags with array := true } fmt
  else some (.start, flags, ch, fmt)

/-- Behind a `%`: the conversion, and the rest of the format. -/
def directive (fmt : Text) : Option (Spec × Text) := do
  let (flags, ch, fmt) ← scanFlags .none fmt
  let (min, ch, fmt) ← scanMin 0 ch fmt
  let (max, ch, fmt) ← scanMax ch fmt
  let (arr, flags, ch, fmt) ← scanArr flags ch fmt
  let (size, ch, fmt) ← scanSize .int ch fmt
  pure (⟨flags, min, max, arr, size, convOf ch⟩, fmt)

theorem length_scanFlags {flags flags' : Flags} {ch : UInt8} {fmt r : Text}
    (h : scanFlags flags fmt = some (flags', ch, r)) : r.length < fmt.length := by
  induction fmt generalizing flags with
  | nil => cases h
  | cons d fmt ih =>
    simp only [scanFlags] at h
    split at h
    · have := ih h
      simp only [List.length_cons]
      omega
    · cases h
      simp

theorem length_scanMin {n : Int} {w : Width} {ch c : UInt8} {fmt r : Text}
    (h : scanMin n ch fmt = some (w, c, r)) : r.length ≤ fmt.length := by
  induction fmt generalizing n ch with
  | nil =>
    simp only [scanMin] at h
    split at h
    · cases h
    · cases h
      simp
  | cons d fmt ih =>
    simp only [scanMin] at h
    split at h
    · have := ih h
      simp only [List.length_cons]
      omega
    · split at h
      · cases h
        simp
      · cases h
        simp

theorem length_scanPrec {n : Int} {w : Width} {c : UInt8} {fmt r : Text}
    (h : scanPrec n fmt = some (w, c, r)) : r.length ≤ fmt.length := by
  induction fmt generalizing n with
  | nil => cases h
  | cons d fmt ih =>
    simp only [scanPrec] at h
    split at h
    · have := ih h
      simp only [List.length_cons]
      omega
    · split at h
      · cases fmt with
        | nil => cases h
        | cons e fmt =>
          cases h
          simp only [List.length_cons]
          omega
      · cases h
        simp

theorem length_scanMax {w : Width} {ch c : UInt8} {fmt r : Text}
    (h : scanMax ch fmt = some (w, c, r)) : r.length ≤ fmt.length := by
  unfold scanMax at h
  split at h
  · exact length_scanPrec h
  · cases h
    simp

theorem scanSize_nil {size size' : Size} {ch c : UInt8} {r : Text}
    (h : scanSize size ch [] = some (size', c, r)) : r = [] := by
  rw [scanSize.eq_def] at h
  dsimp only at h
  split at h
  · cases h
  · cases h
    rfl

theorem length_scanSize {size size' : Size} {ch c : UInt8} {fmt r : Text}
    (h : scanSize size ch fmt = some (size', c, r)) : r.length ≤ fmt.length := by
  obtain ⟨n, hn⟩ : ∃ n, fmt.length ≤ n := ⟨_, Nat.le_refl _⟩
  induction n generalizing size ch fmt with
  | zero =>
    rw [List.eq_nil_of_length_eq_zero (Nat.le_zero.mp hn)] at h
    simp [scanSize_nil h]
  | succ n ih =>
    cases fmt with
    | nil => simp [scanSize_nil h]
    | cons d fmt =>
      rw [List.length_cons] at hn ⊢
      rw [scanSize.eq_def] at h
      dsimp only at h
      split at h
      · split at h
        · cases fmt with
          | nil => cases h
          | cons e fmt =>
            rw [List.length_cons] at hn ⊢
            have := ih h (by omega)
            omega
        · have := ih h (by omega)
          omega
      · split at h
        · have := ih h (by omega)
          omega
        · cases h
          simp

theorem length_directive {fmt r : Text} {spec : Spec} (h : directive fmt = some (spec, r)) :
    r.length < fmt.length := by
  unfold directive at h
  simp only [Option.bind_eq_bind, Option.bind_eq_some_iff, Prod.exists] at h
  obtain ⟨flags, ch1, fmt1, h1, min, ch2, fmt2, h2, max, ch3, fmt3, h3, arr, flags', ch4, fmt4, h4,
    size, ch5, fmt5, h5, h6⟩ := h
  have l1 := length_scanFlags h1
  have l2 := length_scanMin h2
  have l3 := length_scanMax h3
  have l5 := length_scanSize h5
  have l4 : fmt4.length ≤ fmt3.length := by
    unfold scanArr at h4
    split at h4
    · exact length_scanArray h4
    · cases h4
      simp
  cases h6
  omega

/-- The format; where it ends within a conversion it is over. -/
def parse (fmt : Text) : List Piece :=
  match fmt with
  | [] => []
  | ch :: fmt =>
    if ch ≠ chr '%' then .lit ch :: parse fmt
    else
      match _hd : directive fmt with
      | none => []
      | some (spec, fmt') => .conv spec :: parse fmt'
termination_by fmt.length
decreasing_by
  · simp
  · have := length_directive _hd
    simp only [List.length_cons]
    omega

/-! ## The arguments -/

/-- What is behind the format; strings and arrays may be null pointers, and what an array holds goes on
behind its length. -/
inductive Arg
  | int (val : BitVec 32)
  | long (val : BitVec 64)
  | ptr (val : BitVec 64)
  | str (val : Option Text)
  | strs (val : Option (List (Option Text)))
  | bytes (val : Option (List (BitVec 8)))
  | shorts (val : Option (List (BitVec 16)))
  | ints (val : Option (List (BitVec 32)))
  | longs (val : Option (List (BitVec 64)))
deriving DecidableEq

def width : Width → List Arg → Option (Int × List Arg)
  | .num n, args => some (n, args)
  | .star, .int val :: args => some (val.toInt, args)
  | .star, _ => none

/-- The last length counts, but all are taken. -/
def arlen : Int → List Width → List Arg → Option (Int × List Arg)
  | len, [], args => some (len, args)
  | _, w :: ws, args => width w args >>= fun r => arlen r.1 ws r.2

/-- The elements: up to the stop value, or as many as there shall be. -/
def elements {α : Type} (stop : α → Bool) (len : Int) (l : List α) : Option (List α) :=
  if len = -1 then if l.any stop then some (l.takeWhile (!stop ·)) else none
  else if (len % 2 ^ 32).toNat ≤ l.length then some (l.take (len % 2 ^ 32).toNat)
  else none

/-- What is printed about the elements. -/
def printArray (spec : Spec) (items : List Text) : Text :=
  (if spec.flags.colon then fmtint (BitVec.ofNat 64 items.length) 10 0 (-1)
    { Flags.none with unsigned := true } ++ str ": " else []) ++
  spec.arr.arpr ++
  spec.arr.aresp.intercalate (items.map fun item => spec.arr.arepr ++ item ++ spec.arr.aresf) ++
  spec.arr.arsf

def printNull (spec : Spec) : Text := if spec.arr.arpr ≠ [] then str "NULL" else str "((null))"

def printElements {α : Type} (spec : Spec) (stop : α → Bool) (item : α → Text) (len : Int) :
    Option (List α) → Option Text
  | none => some (printNull spec)
  | some l => (elements stop len l).map fun l => printArray spec (l.map item)

/-- `value`, from an integer of another size. -/
def widen {w : Nat} (flags : Flags) (val : BitVec w) : BitVec 64 :=
  if flags.unsigned then val.setWidth 64 else val.signExtend 64

def printArrayOf (spec : Spec) (flags : Flags) (radix : Nat) (min max len : Int) :
    Arg → Option Text
  | .bytes val =>
    if spec.size = .byte then
      printElements spec (· = BitVec.allOnes 8) (fun v => fmtint (widen flags v) radix min max flags)
        len val
    else none
  | .shorts val =>
    if spec.size = .short then
      printElements spec (· = BitVec.allOnes 16) (fun v => fmtint (widen flags v) radix min max flags)
        len val
    else none
  | .ints val =>
    if spec.size = .int then
      printElements spec (· = BitVec.allOnes 32) (fun v => fmtint (widen flags v) radix min max flags)
        len val
    else none
  | .longs val =>
    if spec.size = .long then
      printElements spec (· = BitVec.allOnes 64) (fun v => fmtint (widen flags v) radix min max flags)
        len val
    else none
  | _ => none

/-- The label `printit`, for integers. -/
def printInt (spec : Spec) (flags : Flags) (radix : Nat) (min max len : Int) (arg : Arg) :
    Option Text :=
  if flags.array then printArrayOf spec flags radix min max len arg
  else
    match spec.size, arg with
    | .long, .long val => some (fmtint val radix min max flags)
    | .long, _ => none
    | _, .int val => some (fmtint (widen flags val) radix min max flags)
    | _, _ => none

def printStr (spec : Spec) (min max len : Int) : Arg → Option Text
  | .str val => if spec.flags.array then none else some (fmtstr val spec.flags min max)
  | .strs val =>
    if spec.flags.array then
      printElements spec (·.isNone) (fun v => fmtstr v spec.flags min max) len val
    else none
  | _ => none

/-- The switch over the conversion; `error` is the text that `%m` is for. -/
def printConv (error : Text) (spec : Spec) (min max len : Int) (args : List Arg) :
    Option (Text × List Arg) :=
  match spec.conv with
  | .percent => some ([chr '%'], args)
  | .m => some (fmtstr (some error) spec.flags min max, args)
  | .other => some ([], args)
  | .c =>
    match args with
    | .int val :: args => some ([UInt8.ofNat val.toNat], args)
    | _ => none
  | .s =>
    match args with
    | [] => none
    | arg :: args => (printStr spec min max len arg).map (·, args)
  | .u =>
    match args with
    | [] => none
    | arg :: args =>
      (printInt spec { spec.flags with unsigned := true } 10 min max len arg).map (·, args)
  | .d =>
    match args with
    | [] => none
    | arg :: args => (printInt spec spec.flags 10 min max len arg).map (·, args)
  | .X =>
    match args with
    | [] => none
    | arg :: args =>
      (printInt spec { spec.flags with upcase := true, unsigned := true } 16 min max len arg).map
        (·, args)
  | .x =>
    match args with
    | [] => none
    | arg :: args =>
      (printInt spec { spec.flags with unsigned := true } 16 min max len arg).map (·, args)
  | .p =>
    match args with
    | .ptr val :: args =>
      some (fmtint val 16 18 max { spec.flags with unsigned := true, zero := true, num := true }, args)
    | _ => none

/-- The arguments are taken from left to right. -/
def printPieces (error : Text) : List Piece → List Arg → Option Text
  | [], _ => some []
  | .lit ch :: ps, args => (printPieces error ps args).map (ch :: ·)
  | .conv spec :: ps, args => do
    let (min, args) ← width spec.min args
    let (max, args) ← width spec.max args
    let (len, args) ← arlen (-1) spec.arr.len args
    let (out, args) ← printConv error spec min max len args
    let rest ← printPieces error ps args
    pure (out ++ rest)

def doPrint (error fmt : Text) (args : List Arg) : Option Text := printPieces error (parse fmt) args

example : doPrint [] (str "a%\"s %[\x7bd %03x\n") [.str (some (str "x\"\n")),
    .ints (some [1, 2, 0xffffffff]), .int 10] = some (str "a\"x\\\"\\n\" \x7b 1 2 \x7d 00a\n") := by
  decide +kernel

end Kdm.Printf
