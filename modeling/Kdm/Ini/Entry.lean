import Kdm.Ipc.Codec
import Mathlib.Data.List.DropRight

/-!
# Entries of ini files

`iniEntry` (`inifile.c`) looks an entry up or writes one.  The text is walked once with a cursor;
the places where an entry or a section may be inserted are noted on the way, and one block copies
the text with the insertion.

A string is the list of its bytes without the zero.  A pointer into the text is what is left of the
text from there on, so the distance of two pointers
is the difference of the lengths.  The text ends in a newline; the code would read on behind a
line that has none, where the walk of the model is over.
-/

namespace Kdm.Ini

open Ipc (Bytes CStr)

def isBlank (c : UInt8) : Bool := c == 32 || c == 9

/-- `for (; *p == ' ' || *p == '\t'; p++);` -/
def skipBlanks (p : Bytes) : Bytes := p.dropWhile isBlank

/-- `while (*p++ != '\n');` -/
def nextLine (p : Bytes) : Bytes := (p.dropWhile (· ≠ 10)).tail

/-- `for (; *p == *t; t++, p++);` as long as neither is over: what is left of both -/
def matchText : Bytes → Bytes → Bytes × Bytes
  | a :: p, b :: t => if a = b then matchText p t else (a :: p, b :: t)
  | p, t => (p, t)

/-- A value from `cb` up to the end of its line, without the blanks at its end. -/
def valueAt (cb : Bytes) : Bytes := (cb.takeWhile (· ≠ 10)).rdropWhile isBlank

/-- What the walk notes. -/
structure Cursor where
  insect : Bool
  secinsert : Option Bytes
  pastinsert : Option Bytes
  deriving DecidableEq, Repr

def Cursor.start : Cursor := ⟨false, none, none⟩

/-- A line that is not empty was passed. -/
def Cursor.pass (c : Cursor) (insect : Bool) (p : Bytes) : Cursor :=
  if insect then ⟨insect, some p, c.pastinsert⟩ else ⟨insect, c.secinsert, some p⟩

/-- How the walk ends: at the value of the entry and the line after it, or at the end of the text. -/
inductive Walk where
  | found (cb ce : Bytes)
  | missing (c : Cursor)
  deriving DecidableEq, Repr

theorem length_matchText (p t : Bytes) : (matchText p t).1.length ≤ p.length := by
  fun_induction matchText p t with
  | case1 p a t ih => rw [List.length_cons]; omega
  | case2 => exact le_refl _
  | case3 => exact le_refl _

theorem length_skipBlanks (p : Bytes) : (skipBlanks p).length ≤ p.length :=
  (List.dropWhile_suffix _).length_le

theorem length_nextLine (p : Bytes) : (nextLine p).length ≤ p.length - 1 := by
  rw [nextLine, List.length_tail]
  exact Nat.sub_le_sub_right (List.dropWhile_suffix _).length_le 1

theorem length_skipBlanks_cons {p q : Bytes} {x : UInt8} (h : skipBlanks p = x :: q) :
    q.length < p.length := by
  have hlen := length_skipBlanks p
  rw [h] at hlen
  exact hlen

/-- The loop over the lines. -/
def walk (sec key : Bytes) (c : Cursor) (p : Bytes) : Walk :=
  match _hp : skipBlanks p with
  | [] => .missing c
  | x :: q =>
    if x = 10 then walk sec key c q
    else if x = 91 then
      let m := matchText q sec
      walk sec key (c.pass (m.2 = [] ∧ m.1.head? = some 93) (nextLine m.1)) (nextLine m.1)
    else if c.insect then
      let m := matchText (x :: q) key
      let p := skipBlanks m.1
      if m.2 = [] ∧ p.head? = some 61 then
        let cb := skipBlanks p.tail
        .found cb (nextLine cb)
      else walk sec key (c.pass c.insect (nextLine p)) (nextLine p)
    else walk sec key (c.pass c.insect (nextLine (x :: q))) (nextLine (x :: q))
  termination_by p.length
  decreasing_by
    all_goals have hlen := length_skipBlanks_cons _hp
    · exact hlen
    · have h1 := length_nextLine (matchText q sec).1
      have h2 := length_matchText q sec
      omega
    · have h1 := length_nextLine (skipBlanks (matchText (x :: q) key).1)
      have h2 := length_skipBlanks (matchText (x :: q) key).1
      have h3 := length_matchText (x :: q) key
      rw [List.length_cons] at h3
      omega
    · have h1 := length_nextLine (x :: q)
      rw [List.length_cons] at h1
      omega

theorem walk_nil {sec key p : Bytes} {c : Cursor} (h : skipBlanks p = []) :
    walk sec key c p = .missing c := by
  rw [walk]
  split
  · rfl
  · rename_i he
    rw [h] at he
    cases he

/-- One round of the loop. -/
theorem walk_cons {sec key p q : Bytes} {c : Cursor} {x : UInt8} (h : skipBlanks p = x :: q) :
    walk sec key c p =
      if x = 10 then walk sec key c q
      else if x = 91 then
        let m := matchText q sec
        walk sec key (c.pass (m.2 = [] ∧ m.1.head? = some 93) (nextLine m.1)) (nextLine m.1)
      else if c.insect then
        let m := matchText (x :: q) key
        let p := skipBlanks m.1
        if m.2 = [] ∧ p.head? = some 61 then
          let cb := skipBlanks p.tail
          .found cb (nextLine cb)
        else walk sec key (c.pass c.insect (nextLine p)) (nextLine p)
      else walk sec key (c.pass c.insect (nextLine (x :: q))) (nextLine (x :: q)) := by
  rw [walk]
  split
  · rename_i he
    rw [h] at he
    cases he
  · rename_i he
    rw [h] at he
    cases he
    rfl

/-- The variables at the label `insert`. -/
structure Insert where
  cb : Bytes
  ce : Bytes
  len : Nat
  ll : Nat
  sl : Nat
  kl : Nat
  deriving DecidableEq, Repr

/-- Where and how an entry is written. -/
def insertAt (data sec key : Bytes) : Walk → Insert
  | .found cb ce => ⟨cb, ce, (data.length - ce.length) + ce.length, 0, 0, 0⟩
  | .missing c =>
    match c.secinsert, c.pastinsert with
    | some p, _ => ⟨p, p, data.length, 0, 0, key.length + 1⟩
    | none, some p => ⟨p, p, data.length, 1, sec.length + 3, key.length + 1⟩
    | none, none => ⟨data, data, data.length, 0, sec.length + 3, key.length + 1⟩

/-- The size of the new text. -/
def Insert.nlen (r : Insert) (value : Bytes) : Nat :=
  r.len - (r.cb.length - r.ce.length) + r.ll + r.sl + r.kl + value.length + 1

/-- The header and the key that are written before the value. -/
def Insert.added (r : Insert) (sec key : Bytes) : Bytes :=
  if r.kl ≠ 0 then
    (if r.sl ≠ 0 then (if r.ll ≠ 0 then [10] else []) ++ [91] ++ sec.take (r.sl - 3) ++ [93, 10]
      else []) ++
    key.take (r.kl - 1) ++ [61]
  else []

/-- The text that is written, without the zero at its end. -/
def Insert.written (r : Insert) (data : Option Bytes) (sec key value : Bytes) : Bytes :=
  let s := data.getD []
  s.take (s.length - r.cb.length) ++ r.added sec key ++ value ++ [10] ++
    (if data.isSome then r.ce.take (r.len - (s.length - r.ce.length)) else [])

/-- `iniEntry` without a value: the value of the entry. -/
def lookup (malloc : Nat → Bool) (data : Option Bytes) (sec key : Bytes) : Option Bytes :=
  match walk sec key .start (data.getD []) with
  | .found cb _ => if malloc ((valueAt cb).length + 1) then some (valueAt cb) else none
  | .missing _ => none

/-- The insertion for an entry. -/
def insertion (data : Option Bytes) (sec key : Bytes) : Insert :=
  insertAt (data.getD []) sec key (walk sec key .start (data.getD []))

/-- The number of bytes that are allocated for the new text. -/
def allocated (data : Option Bytes) (sec key value : Bytes) : Nat :=
  (insertion data sec key).nlen value + 1

/-- `iniEntry` with a value: the text with the entry. -/
def store (malloc : Nat → Bool) (data : Option Bytes) (sec key value : Bytes) : Option Bytes :=
  if malloc (allocated data sec key value) then
    some ((insertion data sec key).written data sec key value)
  else data

def iniEntry (malloc : Nat → Bool) (data : Option Bytes) (sec key : Bytes) (value : Option Bytes) :
    Option Bytes :=
  match value with
  | none => lookup malloc data sec key
  | some value => store malloc data sec key value

end Kdm.Ini
