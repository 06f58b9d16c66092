import Kdm.Backend.Types

/-!
# Text from the outside

The conversions the daemon applies to bytes of a pipe, to words of a control command and to
utmp lines, in terms of characters: `strtol`, `atoi`, splitting at tabs, C strings.
-/

namespace Kdm

/-- `isspace`. -/
def isSpace (c : Char) : Bool := c ∈ [' ', '\t', '\n', '\x0b', '\x0c', '\r']

def digitVal (c : Char) : Int := (c.toNat : Int) - 48

def decimal (ds : List Char) : Int := ds.foldl (fun n c => 10 * n + digitVal c) 0

/-- The range of a `long`. -/
def clampLong (x : Int) : Int := max (-0x8000000000000000) (min x 0x7fffffffffffffff)

/-- An optional sign. -/
def splitSign : List Char → Bool × List Char
  | '-' :: cs => (true, cs)
  | '+' :: cs => (false, cs)
  | cs => (false, cs)

/-- `strtol(_, &end, 10)` with the text at `end`; without digits `end` is the start. -/
def strtol (cs : List Char) : Int × List Char :=
  let (neg, body) := splitSign (cs.dropWhile isSpace)
  let ds := body.takeWhile Char.isDigit
  if ds = [] then (0, cs)
  else (clampLong (if neg then -decimal ds else decimal ds), body.dropWhile Char.isDigit)

/-- `atoi`. -/
def atoi (cs : List Char) : Int := toInt (strtol cs).1

/-- The characters up to a NUL. -/
def cString (cs : List Char) : String := String.ofList (cs.takeWhile (· ≠ '\x00'))

/-- The words of a control command, split at tabs. -/
def splitTabs : List Char → List (List Char)
  | [] => [[]]
  | c :: cs =>
    match splitTabs cs with
    | w :: ws => if c = '\t' then [] :: w :: ws else (c :: w) :: ws
    | [] => [[c]]

/-- `processCtrl`'s array of words. -/
def commandWords (line : String) : List String := (splitTabs line.toList).map cString

/-- `TTYtoVT`. -/
def ttyToVT (tty : String) : Int :=
  if tty.toList.take 3 = ['t', 't', 'y'] then atoi (tty.toList.drop 3) else 0

/-- A little-endian 32-bit `int`. -/
def int32 : List UInt8 → Int
  | [b0, b1, b2, b3] =>
    toInt (b0.toNat + 0x100 * b1.toNat + 0x10000 * b2.toNat + 0x1000000 * b3.toNat)
  | _ => 0

/-- The same bytes as an `unsigned`. -/
def uint32 : List UInt8 → Nat
  | [b0, b1, b2, b3] => b0.toNat + 0x100 * b1.toNat + 0x10000 * b2.toNat + 0x1000000 * b3.toNat
  | _ => 0

/-- Received bytes as a C string. -/
def bytesString (bs : List UInt8) : String := cString (bs.map fun b => Char.ofNat b.toNat)

end Kdm
