import Mathlib.Data.List.Nodup
import Mathlib.Data.List.Perm.Basic

/-!
# The lists of users of the control module

`KDModule` of `main.cpp` reads the users with their groups, and offers those whose UID is in a range,
with the groups that they are in.  When the range changes, it tells the widgets which names go and
which ones come; a group is counted by its members that are shown.

* `usermap` — what the constructor reads from the databases.
* `propagateUsers` — the lists from the beginning.
* `slotMinMaxUID` — the lists for another range; `none` is an entry that is not there.
* `Tidy` — what the databases must not have, so that both come to the same.
-/

namespace Kdm.Kcm

/-- `QString`, as its code units. -/
abbrev Text := List UInt16

/-- `'@'`. -/
def AT : UInt16 := 64

/-- `struct passwd`. -/
structure Passwd where
  pw_name : Text
  pw_uid : BitVec 32
  pw_gid : Nat

/-- `struct group`. -/
structure Group where
  gr_name : Text
  gr_gid : Nat
  gr_mem : List Text

/-- An entry of `usermap`; the UID is kept in an `int`. -/
structure User where
  name : Text
  uid : Int
  groups : List Text

/-! ## The databases -/

/-- The order of `QString`. -/
def precedes : Text → Text → Bool
  | [], [] => false
  | [], _ :: _ => true
  | _ :: _, [] => false
  | a :: s, b :: t => if a = b then precedes s t else a < b

/-- `QMap::insert` for a name that is not there. -/
def insertUser (u : User) : List User → List User
  | [] => [u]
  | v :: us => if precedes u.name v.name then u :: v :: us else v :: insertUser u us

/-- The lists of users by primary group: `tgmap`. -/
abbrev Primary := List (Nat × List Text)

/-- A user is added to its primary group. -/
def addPrimary (gid : Nat) (un : Text) : Primary → Primary
  | [] => [(gid, [un])]
  | (g, names) :: tg => if g = gid then (g, names ++ [un]) :: tg else (g, names) :: addPrimary gid un tg

/-- The loop over the users. -/
def readPasswd : List Passwd → List User × Primary → List User × Primary
  | [], m => m
  | ps :: pws, (us, tg) =>
    if us.any fun u => u.name = ps.pw_name then readPasswd pws (us, tg)
    else
      readPasswd pws (insertUser ⟨ps.pw_name, ps.pw_uid.toInt, []⟩ us,
        addPrimary ps.pw_gid ps.pw_name tg)

/-- `second.append(gn)`. -/
def appendGroup (un gn : Text) (us : List User) : List User :=
  us.map fun u => if u.name = un then { u with groups := u.groups ++ [gn] } else u

/-- A member of a group; an unknown one is left out. -/
def addMember (gn : Text) (us : List User) (un : Text) : List User :=
  us.map fun u =>
    if u.name = un ∧ gn ∉ u.groups then { u with groups := u.groups ++ [gn] } else u

/-- The loop over the groups. -/
def readGroup : List Group → List User × Primary → List User
  | [], (us, _) => us
  | grp :: grs, (us, tg) =>
    let gn := grp.gr_name
    let names := tg.find? fun e => e.1 = grp.gr_gid
    let delme := names.any fun e => e.2 = [gn]
    let us :=
      match names with
      | some e => if delme then us else e.2.foldl (fun us un => appendGroup un gn us) us
      | none => us
    let tg := tg.filter fun e => e.1 ≠ grp.gr_gid
    if grp.gr_mem = [] ∨ delme ∧ grp.gr_mem = [gn] then readGroup grs (us, tg)
    else readGroup grs (grp.gr_mem.foldl (addMember gn) us, tg)

/-- What the constructor reads. -/
def usermap (pws : List Passwd) (grs : List Group) : List User :=
  readGroup grs (readPasswd pws ([], []))

/-! ## The lists -/

/-- `QMap<QString, int>`; the order of the keys does not matter, since the lists are sorted. -/
abbrev Values := List (Text × Int)

def Values.insert (key : Text) (value : Int) (m : Values) : Values :=
  (key, value) :: m.filter fun e => e.1 ≠ key

abbrev GroupMap := Text → Option Nat

def GroupMap.set (gm : GroupMap) (g : Text) (n : Option Nat) : GroupMap :=
  fun g' => if g' = g then n else gm g'

/-- The range of the UIDs that are shown. -/
structure Range where
  min : Int
  max : Int

def Range.has (r : Range) (uid : Int) : Bool := r.min ≤ uid && uid ≤ r.max

/-- What the widgets offer: the lists of the selected and of the hidden users, and of those that need
no password. -/
structure Lists where
  optinlv : List Text
  optoutlv : List Text
  npuserlv : List Text

structure State where
  range : Range
  groupmap : GroupMap
  lists : Lists

/-- The keys that have a value other than 0. -/
def Values.nonzero (m : Values) : List Text := (m.filter fun e => e.2 ≠ 0).map Prod.fst

/-- `slotAddUsers` of the two widgets. -/
def addUsers (l : Lists) (users : Values) : Lists where
  optinlv := l.optinlv ++ users.map Prod.fst
  optoutlv := l.optoutlv ++ users.map Prod.fst
  npuserlv := l.npuserlv ++ users.nonzero

/-- `delete npuserlv->findItems(..).first()` for each name. -/
def deleteFirst : List Text → List Text → Option (List Text)
  | [], items => some items
  | key :: keys, items => if key ∈ items then deleteFirst keys (items.erase key) else none

/-- `slotDelUsers` of the two widgets. -/
def delUsers (l : Lists) (users : Values) : Option Lists :=
  (deleteFirst users.nonzero l.npuserlv).map fun np =>
    { optinlv := l.optinlv.filter fun item => item ∉ users.map Prod.fst
      optoutlv := l.optoutlv.filter fun item => item ∉ users.map Prod.fst
      npuserlv := np }

/-- A user comes: the groups that were not there come, too. -/
def enter (uid : Int) : List Text → GroupMap × Values → GroupMap × Values
  | [], s => s
  | g :: gs, (gm, users) =>
    match gm g with
    | none => enter uid gs (gm.set g (some 1), users.insert (AT :: g) (-uid))
    | some n => enter uid gs (gm.set g (some (n + 1)), users)

/-- A user goes: the groups without another member go, too. -/
def leave (uid : Int) : List Text → GroupMap × Values → Option (GroupMap × Values)
  | [], s => some s
  | g :: gs, (gm, users) =>
    match gm g with
    | none => none
    | some n =>
      if n - 1 = 0 then leave uid gs (gm.set g none, users.insert (AT :: g) (-uid))
      else leave uid gs (gm.set g (some (n - 1)), users)

/-- The users that a range shows; one with the UID 0 is always shown. -/
def shows (r : Range) (u : User) : Bool := u.uid = 0 || r.has u.uid

/-- The loop of `propagateUsers`. -/
def collect (r : Range) : List User → GroupMap × Values → GroupMap × Values
  | [], s => s
  | u :: us, (gm, lusers) =>
    if shows r u then collect r us (enter u.uid u.groups (gm, lusers.insert u.name u.uid))
    else collect r us (gm, lusers)

def propagateUsers (us : List User) (r : Range) : State :=
  let c := collect r us (fun _ => none, [])
  ⟨r, c.1, addUsers ⟨[], [], []⟩ c.2⟩

/-- What the loop of `slotMinMaxUID` goes by. -/
structure Pass where
  groupmap : GroupMap
  dlusers : Values
  alusers : Values

/-- The loop of `slotMinMaxUID`, from one range to another one. -/
def pass (r r' : Range) : List User → Pass → Option Pass
  | [], p => some p
  | u :: us, p =>
    if u.uid = 0 then pass r r' us p
    else if r.has u.uid && ! r'.has u.uid then
      match leave u.uid u.groups (p.groupmap, p.dlusers.insert u.name u.uid) with
      | none => none
      | some s => pass r r' us { p with groupmap := s.1, dlusers := s.2 }
    else if r'.has u.uid && ! r.has u.uid then
      let s := enter u.uid u.groups (p.groupmap, p.alusers.insert u.name u.uid)
      pass r r' us { p with groupmap := s.1, alusers := s.2 }
    else pass r r' us p

def slotMinMaxUID (us : List User) (s : State) (r : Range) : Option State :=
  match pass s.range r us ⟨s.groupmap, [], []⟩ with
  | none => none
  | some p =>
    match delUsers s.lists p.dlusers with
    | none => none
    | some l => some ⟨r, p.groupmap, addUsers l p.alusers⟩

/-- A sequence of changes of the range. -/
def changes (us : List User) : List Range → State → Option State
  | [], s => some s
  | r :: rs, s => (slotMinMaxUID us s r).bind (changes us rs)

/-! ## The property -/

/-- The counts are the same, and the lists once they are sorted. -/
structure Same (s s' : State) : Prop where
  groupmap : s.groupmap = s'.groupmap
  optinlv : s.lists.optinlv.Perm s'.lists.optinlv
  optoutlv : s.lists.optoutlv.Perm s'.lists.optoutlv
  npuserlv : s.lists.npuserlv.Perm s'.lists.npuserlv

/-- **The property**: after any changes of the range the state is that of a fresh `propagateUsers` for
the last one, and nothing was looked for in vain. -/
def Incremental (us : List User) : Prop :=
  ∀ (r : Range) (rs : List Range), ∃ s, changes us rs (propagateUsers us r) = some s ∧
    Same s (propagateUsers us s.range) ∧ s.range = (r :: rs).getLast (List.cons_ne_nil r rs)

/-- **The condition**: no user has the name of a group with `@`, and in a group that has a member with
the UID 0 such a member comes before any other one. -/
structure Tidy (us : List User) : Prop where
  noAt : ∀ u ∈ us, ∀ v ∈ us, ∀ g ∈ v.groups, u.name ≠ AT :: g
  rootFirst : ∀ done u rest, us = done ++ u :: rest → ∀ g ∈ u.groups, u.uid ≠ 0 →
    (∃ v ∈ us, v.uid = 0 ∧ g ∈ v.groups) → ∃ v ∈ done, v.uid = 0 ∧ g ∈ v.groups

end Kdm.Kcm
