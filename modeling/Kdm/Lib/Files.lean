import Kdm.Lib.Lines
import Mathlib.Data.List.DropRight
import Mathlib.Logic.Function.Basic

/-!
# A tree of files with symbolic links

A file system as a function of locations, and the walk along a path that a system call makes.
A location is the list of names from the root, without links; a path is a text.  Relative paths
start at the root.  A file has one location, that is, there are no hard links.

Principal results: `walk_append` (the walk along a path goes on from where the walk along its
beginning ends), `walk_mono` (a walk to something that is there stays the same when files are
added), `walk_congr` and `walk_lenient`.
-/

namespace Files

abbrev Name := List Char

abbrev Loc := List Name

abbrev Path := List Char

/-- What somebody who is neither the owner nor in the group may do. -/
structure Perm where
  readOther : Bool
  exeOther : Bool
  deriving DecidableEq, Repr

inductive Node where
  | dir (p : Perm)
  | file (p : Perm) (content : List UInt8)
  | link (target : Path)
  deriving DecidableEq, Repr

def Node.isDir : Node → Bool
  | .dir _ => true
  | _ => false

/-- What a directory entry may be called. -/
def Proper (n : Name) : Prop := n ≠ [] ∧ n ≠ ['.'] ∧ n ≠ ['.', '.'] ∧ '/' ∉ n

instance (n : Name) : Decidable (Proper n) := by
  unfold Proper
  infer_instance

/-- A file system; `names` has all names that occur, in the order of a listing. -/
structure Tree where
  node : Loc → Option Node
  names : List Name
  root : (node []).any Node.isDir = true
  parent : ∀ l n, (node (l ++ [n])).isSome → (node l).any Node.isDir = true
  covers : ∀ l n, (node (l ++ [n])).isSome → n ∈ names ∧ Proper n

/-- The longest path, with the byte that ends it. -/
def PATH_MAX : Nat := 4096

/-- The number of links that may be followed along a path. -/
def MAXSYMLINKS : Nat := 40

namespace Tree

def isDir (fs : Tree) (l : Loc) : Bool := (fs.node l).any Node.isDir

theorem isDir_nil (fs : Tree) : fs.isDir [] = true := fs.root

theorem isDir_of_append {fs : Tree} {l : Loc} {n : Name} (h : (fs.node (l ++ [n])).isSome) :
    fs.isDir l = true := fs.parent l n h

theorem isSome_of_isDir {fs : Tree} {l : Loc} (h : fs.isDir l = true) : (fs.node l).isSome := by
  unfold isDir at h
  cases hn : fs.node l with
  | none => rw [hn] at h; cases h
  | some x => rfl

theorem isDir_dropLast {fs : Tree} {l : Loc} (h : fs.isDir l = true) : fs.isDir l.dropLast = true := by
  rcases List.eq_nil_or_concat l with rfl | ⟨l, n, rfl⟩
  · exact h
  · rw [List.concat_eq_append, List.dropLast_concat]
    exact isDir_of_append (n := n) (by simpa using isSome_of_isDir h)

/-! ## Changes -/

/-- Putting `x` at `l` leaves a tree: `l` is in a directory, and nothing is below it unless `x` is a
directory. -/
def Admits (fs : Tree) (l : Loc) (x : Option Node) : Prop :=
  Proper (l.getLastD []) ∧ fs.isDir l.dropLast = true ∧
    (x.any Node.isDir = true ∨ ∀ n ∈ fs.names, fs.node (l ++ [n]) = none)

instance (fs : Tree) (l : Loc) (x : Option Node) : Decidable (fs.Admits l x) := by
  unfold Admits
  infer_instance

theorem Admits.root {fs : Tree} {l : Loc} {x : Option Node} (h : fs.Admits l x) :
    (Function.update fs.node l x []).any Node.isDir = true := by
  rw [Function.update_of_ne fun he => h.1.1 (by rw [← he]; rfl)]
  exact fs.root

theorem Admits.parent {fs : Tree} {l : Loc} {x : Option Node} (h : fs.Admits l x) (m : Loc) (n : Name)
    (hn : (Function.update fs.node l x (m ++ [n])).isSome) :
    (Function.update fs.node l x m).any Node.isDir = true := by
  by_cases hm : m = l
  · subst hm
    rw [Function.update_of_ne (by simp)] at hn
    rw [Function.update_self]
    refine h.2.2.resolve_right fun hnone => ?_
    rw [hnone n (fs.covers _ _ hn).1] at hn
    cases hn
  · rw [Function.update_of_ne hm]
    by_cases hl : m ++ [n] = l
    · have hdir := h.2.1
      rw [← hl, List.dropLast_concat] at hdir
      exact hdir
    · rw [Function.update_of_ne hl] at hn
      exact fs.parent m n hn

/-- The names of a tree with something at the location. -/
def namesWith (fs : Tree) (l : Loc) : List Name :=
  if fs.names.contains (l.getLastD []) then fs.names else l.getLastD [] :: fs.names

theorem Admits.covers {fs : Tree} {l : Loc} {x : Option Node} (h : fs.Admits l x) (m : Loc) (n : Name)
    (hn : (Function.update fs.node l x (m ++ [n])).isSome) : n ∈ fs.namesWith l ∧ Proper n := by
  unfold namesWith
  by_cases hl : m ++ [n] = l
  · have hlast : l.getLastD [] = n := by rw [← hl]; simp
    refine ⟨?_, hlast ▸ h.1⟩
    rw [hlast]
    split
    · next hmem => exact List.contains_iff_mem.mp hmem
    · exact List.mem_cons_self
  · rw [Function.update_of_ne hl] at hn
    obtain ⟨hmem, hproper⟩ := fs.covers m n hn
    refine ⟨?_, hproper⟩
    split
    · exact hmem
    · exact List.mem_cons_of_mem _ hmem

/-- Put `x` at `l`, or clear `l`, if that leaves a tree. -/
def set (fs : Tree) (l : Loc) (x : Option Node) : Tree :=
  if h : fs.Admits l x then
    { node := Function.update fs.node l x
      names := fs.namesWith l
      root := h.root
      parent := h.parent
      covers := h.covers }
  else fs

/-- Only the root. -/
def empty : Tree where
  node l := if l = [] then some (.dir ⟨true, true⟩) else none
  names := []
  root := rfl
  parent l n h := by simp at h
  covers l n h := by simp at h

variable {fs fs' : Tree} {l m cur : Loc} {x : Option Node} {b : Bool} {k n : Nat}

theorem set_node_of_ne (h : m ≠ l) : (fs.set l x).node m = fs.node m := by
  unfold set
  split
  · exact Function.update_of_ne h _ _
  · rfl

theorem set_node (h : fs.Admits l x) : (fs.set l x).node = Function.update fs.node l x := by
  unfold set
  rw [dif_pos h]

/-! ## Walks -/

/-- What a link at the location says. -/
def target (fs : Tree) (l : Loc) : Option Path :=
  match fs.node l with
  | some (.link t) => some t
  | _ => none

/-- The walk along a list of names from `cur` on, with the links that may still be followed; the last
name need not be there.  A `lenient` walk takes whatever is no link for a directory. -/
def walkWith (fs : Tree) (lenient : Bool) (n : Nat) (follow : Loc → List Name → Option (Loc × Nat)) :
    Loc → List Name → Option (Loc × Nat)
  | cur, [] => some (cur, n)
  | cur, c :: cs =>
    if c = [] ∨ c = ['.'] then fs.walkWith lenient n follow cur cs
    else if c = ['.', '.'] then fs.walkWith lenient n follow cur.dropLast cs
    else
      match fs.target (cur ++ [c]) with
      | some t => follow (if t.head? = some '/' then [] else cur) (t.splitOn '/' ++ cs)
      | none =>
        if lenient = true ∨ fs.isDir (cur ++ [c]) = true ∨ cs = [] then
          fs.walkWith lenient n follow (cur ++ [c]) cs
        else none

def walk (fs : Tree) (lenient : Bool) : Nat → Loc → List Name → Option (Loc × Nat)
  | 0 => fs.walkWith lenient 0 fun _ _ => none
  | n + 1 => fs.walkWith lenient (n + 1) (fs.walk lenient n)

/-- Where the walk goes on from a name: the links that are left, the location and the names. -/
def hop (fs : Tree) (lenient : Bool) (n : Nat) (cur : Loc) (c : Name) (cs : List Name) :
    Option (Nat × Loc × List Name) :=
  if c = [] ∨ c = ['.'] then some (n, cur, cs)
  else if c = ['.', '.'] then some (n, cur.dropLast, cs)
  else
    match fs.target (cur ++ [c]), n with
    | some _, 0 => none
    | some t, k + 1 => some (k, if t.head? = some '/' then [] else cur, t.splitOn '/' ++ cs)
    | none, n =>
      if lenient = true ∨ fs.isDir (cur ++ [c]) = true ∨ cs = [] then some (n, cur ++ [c], cs) else none

@[simp] theorem walk_nil (n : Nat) (cur : Loc) : fs.walk b n cur [] = some (cur, n) := by
  cases n <;> rfl

theorem walk_cons (n : Nat) (cur : Loc) (c : Name) (cs : List Name) :
    fs.walk b n cur (c :: cs) =
      (fs.hop b n cur c cs).bind fun p => fs.walk b p.1 p.2.1 p.2.2 := by
  unfold hop
  cases n with
  | zero =>
    unfold walk
    conv_lhs => unfold walkWith
    split
    · rfl
    · split
      · rfl
      · cases fs.target (cur ++ [c]) with
        | some t => rfl
        | none => dsimp only; split <;> rfl
  | succ k =>
    conv_lhs => unfold walk walkWith
    split
    · rfl
    · split
      · rfl
      · cases fs.target (cur ++ [c]) with
        | some t => rfl
        | none => dsimp only; split <;> rfl

/-- A walk goes on with the names that are left, or with fewer links. -/
theorem hop_decreases {p : Nat × Loc × List Name} {c : Name} {cs : List Name}
    (h : fs.hop b n cur c cs = some p) : p.1 = n ∧ p.2.2 = cs ∨ n = p.1 + 1 := by
  unfold hop at h
  split at h
  · cases h; exact .inl ⟨rfl, rfl⟩
  · split at h
    · cases h; exact .inl ⟨rfl, rfl⟩
    · split at h
      · cases h
      · cases h; exact .inr rfl
      · split at h
        · cases h; exact .inl ⟨rfl, rfl⟩
        · cases h

/-- **Induction along a walk**. -/
theorem walk_induction {P : Nat → Loc → List Name → Prop} (nil : ∀ n cur, P n cur [])
    (cons : ∀ n cur c cs, (∀ cur, P n cur cs) → (∀ k, n = k + 1 → ∀ cur cs, P k cur cs) →
      P n cur (c :: cs)) :
    ∀ n cur cs, P n cur cs := by
  intro n
  induction n with
  | zero =>
    intro cur cs
    induction cs generalizing cur with
    | nil => exact nil 0 cur
    | cons c cs ih => exact cons 0 cur c cs ih fun k hk => by omega
  | succ n ihn =>
    intro cur cs
    induction cs generalizing cur with
    | nil => exact nil _ cur
    | cons c cs ih =>
      refine cons _ cur c cs ih fun k hk => ?_
      obtain rfl : n = k := by omega
      exact ihn

/-- The same where the walk does not come to a halt before the end. -/
theorem walk_hops {P : Nat → Loc → List Name → Prop} {fs : Tree} {b : Bool} {r : Loc × Nat}
    (nil : P r.2 r.1 [])
    (cons : ∀ n cur c cs p, fs.hop b n cur c cs = some p → fs.walk b p.1 p.2.1 p.2.2 = some r →
      P p.1 p.2.1 p.2.2 → P n cur (c :: cs)) {n : Nat} {cur : Loc} {cs : List Name}
    (h : fs.walk b n cur cs = some r) : P n cur cs := by
  induction n, cur, cs using walk_induction with
  | nil n cur =>
    rw [walk_nil] at h
    cases h
    exact nil
  | cons n cur c cs ih ihk =>
    rw [walk_cons] at h
    obtain ⟨p, hp, h⟩ := Option.bind_eq_some_iff.mp h
    refine cons n cur c cs p hp h ?_
    rcases hop_decreases hp with ⟨h1, h2⟩ | hk
    · have := ih p.2.1
      rw [← h1, ← h2] at this
      exact this h
    · exact ihk p.1 hk _ _ h

/-- A walk goes by the links and the directories only. -/
theorem walk_congr (ht : ∀ l, fs'.target l = fs.target l)
    (hd : b = true ∨ ∀ l, fs'.isDir l = fs.isDir l) (n : Nat) (cur : Loc) (cs : List Name) :
    fs'.walk b n cur cs = fs.walk b n cur cs := by
  have hhop (n : Nat) (cur : Loc) (c : Name) (cs : List Name) :
      fs'.hop b n cur c cs = fs.hop b n cur c cs := by
    have hcond : (b = true ∨ fs'.isDir (cur ++ [c]) = true ∨ cs = []) ↔
        (b = true ∨ fs.isDir (cur ++ [c]) = true ∨ cs = []) := by
      rcases hd with hb | hd
      · simp [hb]
      · rw [hd]
    unfold hop
    simp only [ht, hcond]
  induction n, cur, cs using walk_induction with
  | nil n cur => simp
  | cons n cur c cs ih ihk =>
    rw [walk_cons, walk_cons, hhop]
    cases hp : fs.hop b n cur c cs with
    | none => rfl
    | some p =>
      rcases hop_decreases hp with ⟨h1, h2⟩ | hk
      · have := ih p.2.1
        rw [← h1, ← h2] at this
        exact this
      · exact ihk p.1 hk _ _

/-- A walk is a lenient one. -/
theorem walk_lenient {r : Loc × Nat} {n : Nat} {cur : Loc} {cs : List Name}
    (h : fs.walk false n cur cs = some r) : fs.walk true n cur cs = some r := by
  refine walk_hops (P := fun n cur cs => fs.walk true n cur cs = some r) (walk_nil _ _) ?_ h
  intro n cur c cs p hp _ ih
  have hp' : fs.hop true n cur c cs = some p := by
    unfold hop at hp ⊢
    split at hp
    · rename_i hc; rw [if_pos hc]; exact hp
    · rename_i hc
      rw [if_neg hc]
      split at hp
      · rename_i hc; rw [if_pos hc]; exact hp
      · rename_i hc
        rw [if_neg hc]
        split at hp
        · cases hp
        · exact hp
        · rw [if_pos (.inl rfl)]
          split at hp
          · exact hp
          · cases hp
  rw [walk_cons, hp']
  exact ih

/-- The directories and the links of `fs` are there. -/
structure Keeps (fs fs' : Tree) : Prop where
  dirs : ∀ l, fs.isDir l = true → fs'.isDir l = true
  links : ∀ l t, fs.target l = some t → fs'.target l = some t

theorem Keeps.trans {fs'' : Tree} (h : Keeps fs fs') (h' : Keeps fs' fs'') : Keeps fs fs'' :=
  ⟨fun l hl => h'.dirs l (h.dirs l hl), fun l t ht => h'.links l t (h.links l t ht)⟩

theorem target_of_isDir (h : fs.isDir l = true) : fs.target l = none := by
  unfold isDir at h
  unfold target
  split
  · rename_i hn
    rw [hn] at h
    cases h
  · rfl

/-- **A walk to a directory** stays the same when directories and links are added. -/
theorem walk_mono (hk : Keeps fs fs') {r : Loc × Nat} (hr : fs.isDir r.1 = true) {n : Nat}
    {cur : Loc} {cs : List Name} (h : fs.walk false n cur cs = some r) :
    fs'.walk false n cur cs = some r := by
  refine (walk_hops (P := fun n cur cs => fs'.walk false n cur cs = some r) (walk_nil _ _) ?_ h)
  intro n cur c cs p hp hw ih
  have hp' : fs'.hop false n cur c cs = some p := by
    unfold hop at hp ⊢
    split at hp
    · rename_i hc; rw [if_pos hc]; exact hp
    · rename_i hc
      rw [if_neg hc]
      split at hp
      · rename_i hc; rw [if_pos hc]; exact hp
      · rename_i hc
        rw [if_neg hc]
        split at hp
        · cases hp
        · rename_i t k ht
          rw [hk.links _ t ht]
          exact hp
        · split at hp
          · rename_i hd
            cases hp
            have hdir : fs.isDir (cur ++ [c]) = true := by
              rcases hd with hd | hd | hd
              · cases hd
              · exact hd
              · subst hd
                rw [walk_nil] at hw
                cases hw
                exact hr
            rw [target_of_isDir (hk.dirs _ hdir)]
            dsimp only
            rw [if_pos (.inr (.inl (hk.dirs _ hdir)))]
          · cases hp
  rw [walk_cons, hp']
  exact ih

/-- **Walks compose**: along `as ++ bs` a walk goes on from where it ends along `as`, a directory. -/
theorem walk_append {n : Nat} {cur : Loc} {as bs : List Name} (hcur : fs.isDir cur = true)
    (hbs : bs ≠ []) :
    fs.walk false n cur (as ++ bs) =
      (fs.walk false n cur as).bind fun p =>
        if fs.isDir p.1 = true then fs.walk false p.2 p.1 bs else none := by
  induction n, cur, as using walk_induction with
  | nil n cur => simp [hcur]
  | cons n cur c cs ih ihk =>
    rw [List.cons_append, walk_cons, walk_cons]
    unfold hop
    split
    · exact ih cur hcur
    · split
      · exact ih _ (isDir_dropLast hcur)
      · cases fs.target (cur ++ [c]) with
        | some t =>
          cases n with
          | zero => rfl
          | succ k =>
            dsimp only [Option.bind_some]
            rw [← List.append_assoc]
            refine ihk k rfl _ _ ?_
            split
            · exact fs.isDir_nil
            · exact hcur
        | none =>
          dsimp only
          by_cases hd : fs.isDir (cur ++ [c]) = true
          · rw [if_pos (.inr (.inl hd)), if_pos (.inr (.inl hd))]
            exact ih _ hd
          · have hne : ¬ (false = true ∨ fs.isDir (cur ++ [c]) = true ∨ cs ++ bs = []) := by
              simp [hd, hbs]
            rw [if_neg hne]
            by_cases hcs : cs = []
            · subst hcs
              simp [hd]
            · have hne' : ¬ (false = true ∨ fs.isDir (cur ++ [c]) = true ∨ cs = []) := by
                simp [hd, hcs]
              rw [if_neg hne']
              rfl

/-! ## System calls -/

/-- The walk along a path. -/
def lead (fs : Tree) (lenient : Bool) (path : Path) : Option (Loc × Nat) :=
  if path = [] ∨ PATH_MAX ≤ path.length then none
  else fs.walk lenient MAXSYMLINKS [] (path.splitOn '/')

def stat (fs : Tree) (path : Path) : Option (Loc × Node) :=
  (fs.lead false path).bind fun p => (fs.node p.1).map fun x => (p.1, x)

/-- The last name of a path and the names in front of it; none for the root, `.` and `..`. -/
def lastName (path : Path) : Option (List Name × Name) :=
  let names := (path.splitOn '/').rdropWhile (· = [])
  match names.getLast? with
  | none => none
  | some n => if n = ['.'] ∨ n = ['.', '.'] then none else some (names.dropLast, n)

/-- The location of a directory entry; a link there is not followed. -/
def entryOf (fs : Tree) (path : Path) : Option Loc :=
  (lastName path).bind fun (names, n) =>
    (fs.walk false MAXSYMLINKS [] names).bind fun p =>
      if fs.isDir p.1 = true then some (p.1 ++ [n]) else none

def entry (fs : Tree) (path : Path) : Option Loc :=
  if path = [] ∨ PATH_MAX ≤ path.length then none else fs.entryOf path

def mkdir (fs : Tree) (path : Path) (perm : Perm) : Option Tree :=
  (fs.entry path).bind fun l =>
    if fs.node l = none then some (fs.set l (some (.dir perm))) else none

def rmdir (fs : Tree) (path : Path) : Option Tree :=
  (fs.entry path).bind fun l =>
    if fs.isDir l = true ∧ ∀ n ∈ fs.names, fs.node (l ++ [n]) = none then some (fs.set l none) else none

def unlink (fs : Tree) (path : Path) : Option Tree :=
  (fs.entry path).bind fun l =>
    if (fs.node l).isSome ∧ fs.isDir l = false then some (fs.set l none) else none

/-- Open a file for writing: it is created, or emptied. -/
def creat (fs : Tree) (path : Path) : Option (Loc × Tree) :=
  (fs.lead false path).bind fun (l, _) =>
    match fs.node l with
    | none => some (l, fs.set l (some (.file ⟨true, false⟩ [])))
    | some (.file perm _) => some (l, fs.set l (some (.file perm [])))
    | some _ => none

/-- The names in a directory. -/
def list (fs : Tree) (l : Loc) : List Name := fs.names.filter fun n => (fs.node (l ++ [n])).isSome

/-! ## Directories on a path -/

/-- The directory that a path leads to. -/
def dirOf (fs : Tree) (path : Path) : Option (Loc × Nat) :=
  (fs.walk false MAXSYMLINKS [] (path.splitOn '/')).bind fun p =>
    if fs.isDir p.1 = true then some p else none

variable {d p path : Path} {c : Name} {r : Loc × Nat}

theorem dirOf_eq_some : fs.dirOf path = some r ↔
    fs.walk false MAXSYMLINKS [] (path.splitOn '/') = some r ∧ fs.isDir r.1 = true := by
  unfold dirOf
  rw [Option.bind_eq_some_iff]
  constructor
  · rintro ⟨p, hp, h⟩
    split at h
    · cases h; exact ⟨hp, ‹_›⟩
    · cases h
  · rintro ⟨hp, hd⟩
    exact ⟨r, hp, if_pos hd⟩

theorem dirOf_of_lead (h : fs.lead false path = some r) (hd : fs.isDir r.1 = true) :
    fs.dirOf path = some r := by
  unfold lead at h
  split at h
  · cases h
  · exact dirOf_eq_some.mpr ⟨h, hd⟩

/-- The directory stays where it is when directories and links are added. -/
theorem dirOf_mono (hk : Keeps fs fs') (h : fs.dirOf path = some r) : fs'.dirOf path = some r := by
  obtain ⟨hw, hd⟩ := dirOf_eq_some.mp h
  exact dirOf_eq_some.mpr ⟨walk_mono hk hd hw, hk.dirs _ hd⟩

/-- The walk along a path with one more name. -/
theorem walk_child (d : Path) (hc : '/' ∉ c) :
    fs.walk false MAXSYMLINKS [] ((d ++ '/' :: c).splitOn '/') =
      (fs.dirOf d).bind fun p => fs.walk false p.2 p.1 [c] := by
  rw [List.splitOn_append_cons_self, List.splitOn_eq_singleton hc,
    walk_append fs.isDir_nil (List.cons_ne_nil _ _), dirOf, Option.bind_assoc]
  congr 1
  funext p
  split <;> rfl

theorem walk_empty (n : Nat) (cur : Loc) : fs.walk b n cur [[]] = some (cur, n) := by
  rw [walk_cons]
  exact walk_nil _ _

theorem dirOf_slash (d : Path) : fs.dirOf (d ++ ['/']) = fs.dirOf d := by
  unfold dirOf
  rw [walk_child d List.not_mem_nil, dirOf, Option.bind_assoc, Option.bind_assoc]
  congr 1
  funext p
  split
  · rename_i hp
    simp [walk_empty, hp]
  · rfl

theorem dirOf_rdropWhile (d : Path) : fs.dirOf (d.rdropWhile (· = '/')) = fs.dirOf d := by
  induction d using List.reverseRecOn with
  | nil => rfl
  | append_singleton d c ih =>
    by_cases hc : c = '/'
    · subst hc
      rw [List.rdropWhile_concat_pos _ _ _ (by simp), ih, dirOf_slash]
    · rw [List.rdropWhile_concat_neg _ _ _ (by simpa using hc)]

theorem lead_child (hc : '/' ∉ c) (h : fs.lead false (d ++ '/' :: c) = some r) :
    ∃ q, fs.dirOf d = some q ∧ fs.walk false q.2 q.1 [c] = some r := by
  unfold lead at h
  split at h
  · cases h
  · rw [walk_child d hc] at h
    exact Option.bind_eq_some_iff.mp h

theorem entryOf_slash (p : Path) : fs.entryOf (p ++ ['/']) = fs.entryOf p := by
  have hlast : lastName (p ++ ['/']) = lastName p := by
    unfold lastName
    rw [List.splitOn_append_cons_self, List.splitOn_nil,
      List.rdropWhile_concat_pos _ _ _ (by simp)]
  unfold entryOf
  rw [hlast]

theorem lastName_child (d : Path) (hc : Proper c) :
    lastName (d ++ '/' :: c) = some (d.splitOn '/', c) := by
  unfold lastName
  rw [List.splitOn_append_cons_self, List.splitOn_eq_singleton hc.2.2.2,
    List.rdropWhile_concat_neg _ _ _ (by simpa using hc.1)]
  simp [hc.2.1, hc.2.2.1]

theorem entryOf_child (d : Path) (hc : Proper c) :
    fs.entryOf (d ++ '/' :: c) = (fs.dirOf d).map fun p => p.1 ++ [c] := by
  unfold entryOf dirOf
  rw [lastName_child d hc, Option.bind_some, Option.map_bind]
  dsimp only
  congr 1
  funext p
  simp only [Function.comp]
  split <;> rfl

theorem walk_name {n : Nat} (hc : Proper c) (ht : fs.target (cur ++ [c]) = none) :
    fs.walk b n cur [c] = some (cur ++ [c], n) := by
  have hhop : fs.hop b n cur c [] = some (n, cur ++ [c], []) := by
    unfold hop
    rw [if_neg (by simp [hc.1, hc.2.1]), if_neg hc.2.2.1, ht]
    simp
  rw [walk_cons, hhop]
  exact walk_nil _ _

theorem split_last (path : Path) : '/' ∉ path ∨ ∃ d c, path = d ++ '/' :: c ∧ '/' ∉ c := by
  induction path using List.reverseRecOn with
  | nil => exact .inl List.not_mem_nil
  | append_singleton p x ih =>
    by_cases hx : x = '/'
    · subst hx
      exact .inr ⟨p, [], rfl, List.not_mem_nil⟩
    · rcases ih with h | ⟨d, c, rfl, h⟩
      · left
        simp [h, Ne.symm hx]
      · right
        exact ⟨d, c ++ [x], by simp, by simp [h, Ne.symm hx]⟩

theorem proper_of_lastName {names : List Name} (h : lastName path = some (names, c)) (hne : c ≠ [])
    (hc : '/' ∉ c) : Proper c := by
  unfold lastName at h
  dsimp only at h
  split at h
  · cases h
  · split at h
    · cases h
    · rename_i hdots
      cases h
      exact ⟨hne, fun he => hdots (.inl he), fun he => hdots (.inr he), hc⟩

/-- A directory that is the entry on an absolute path is the one that the path leads to. -/
theorem dirOf_of_entryOf {l : Loc} (habs : path.head? = some '/') (h : fs.entryOf path = some l)
    (hd : fs.isDir l = true) : ∃ k, fs.dirOf path = some (l, k) := by
  induction hlen : path.length generalizing path with
  | zero =>
    rw [List.length_eq_zero_iff.mp hlen] at h
    cases h
  | succ len ih =>
    rcases split_last path with hc | ⟨d, c, rfl, hc⟩
    · exact absurd (List.mem_of_mem_head? habs) hc
    · by_cases hne : c = []
      · subst hne
        rw [dirOf_slash]
        rw [entryOf_slash] at h
        cases d with
        | nil => cases h
        | cons x d => exact ih habs h (by simpa using hlen)
      · obtain ⟨⟨names, n⟩, hlast, -⟩ := Option.bind_eq_some_iff.mp h
        have hn : n = c := by
          unfold lastName at hlast
          rw [List.splitOn_append_cons_self, List.splitOn_eq_singleton hc,
            List.rdropWhile_concat_neg _ _ _ (by simpa using hne)] at hlast
          simp only [List.getLast?_concat] at hlast
          split at hlast
          · cases hlast
          · exact (congrArg Prod.snd (Option.some.inj hlast)).symm
        subst hn
        have hp := proper_of_lastName hlast hne hc
        rw [entryOf_child d hp] at h
        obtain ⟨q, hq, rfl⟩ := Option.map_eq_some_iff.mp h
        refine ⟨q.2, dirOf_eq_some.mpr ⟨?_, hd⟩⟩
        rw [walk_child d hc, hq]
        exact walk_name hp (target_of_isDir hd)

theorem entryOf_of_entry {l : Loc} (h : fs.entry path = some l) : fs.entryOf path = some l := by
  unfold entry at h
  split at h
  · cases h
  · exact h

/-! ## What a change keeps -/

theorem isDir_set_of_ne {m : Loc} (h : m ≠ l) : (fs.set l x).isDir m = fs.isDir m := by
  unfold isDir
  rw [set_node_of_ne h]

theorem target_set_of_ne {m : Loc} (h : m ≠ l) : (fs.set l x).target m = fs.target m := by
  unfold target
  rw [set_node_of_ne h]

/-- What is put at a location is there, or nothing was done. -/
theorem set_node_self (fs : Tree) (l : Loc) (x : Option Node) :
    (fs.set l x).node l = x ∨ fs.set l x = fs := by
  by_cases h : fs.Admits l x
  · left
    rw [set_node h, Function.update_self]
  · right
    unfold set
    rw [dif_neg h]

theorem Keeps.refl (fs : Tree) : Keeps fs fs := ⟨fun _ h => h, fun _ _ h => h⟩

/-- Taking something away. -/
theorem keeps_of_clear (fs : Tree) (l : Loc) : Keeps (fs.set l none) fs := by
  constructor
  · intro m hm
    by_cases hl : m = l
    · subst hl
      rcases set_node_self fs m none with h | h
      · unfold isDir at hm
        rw [h] at hm
        cases hm
      · rw [← h]; exact hm
    · rwa [isDir_set_of_ne hl] at hm
  · intro m t hm
    by_cases hl : m = l
    · subst hl
      rcases set_node_self fs m none with h | h
      · unfold target at hm
        rw [h] at hm
        cases hm
      · rw [← h]; exact hm
    · rwa [target_set_of_ne hl] at hm

/-- Putting something where there was neither a directory nor a link. -/
theorem keeps_set (hd : fs.isDir l = false) (ht : fs.target l = none) : Keeps fs (fs.set l x) := by
  constructor
  · intro m hm
    by_cases hl : m = l
    · subst hl
      rw [hd] at hm
      cases hm
    · rwa [isDir_set_of_ne hl]
  · intro m t hm
    by_cases hl : m = l
    · subst hl
      rw [ht] at hm
      cases hm
    · rwa [target_set_of_ne hl]

/-- Only what is in `A` is different. -/
def Confined (A : Loc → Prop) (fs fs' : Tree) : Prop := ∀ l, ¬ A l → fs'.node l = fs.node l

theorem Confined.refl (A : Loc → Prop) (fs : Tree) : Confined A fs fs := fun _ _ => rfl

theorem Confined.trans {A : Loc → Prop} {fs'' : Tree} (h : Confined A fs fs')
    (h' : Confined A fs' fs'') : Confined A fs fs'' :=
  fun l hl => (h' l hl).trans (h l hl)

theorem Confined.mono {A B : Loc → Prop} (h : Confined A fs fs') (hAB : ∀ l, A l → B l) :
    Confined B fs fs' := fun l hl => h l fun hA => hl (hAB l hA)

theorem confined_set {A : Loc → Prop} (h : A l) : Confined A fs (fs.set l x) := by
  intro m hm
  exact set_node_of_ne fun he => hm (he ▸ h)

/-! ## What a system call does -/

theorem of_unlink (h : fs.unlink path = some fs') :
    ∃ l, fs.entryOf path = some l ∧ fs' = fs.set l none := by
  obtain ⟨l, hl, h⟩ := Option.bind_eq_some_iff.mp h
  split at h
  · cases h
    exact ⟨l, entryOf_of_entry hl, rfl⟩
  · cases h

theorem of_rmdir (h : fs.rmdir path = some fs') :
    ∃ l, fs.entryOf path = some l ∧ fs.isDir l = true ∧ fs' = fs.set l none := by
  obtain ⟨l, hl, h⟩ := Option.bind_eq_some_iff.mp h
  split at h
  · rename_i hc
    cases h
    exact ⟨l, entryOf_of_entry hl, hc.1, rfl⟩
  · cases h

theorem of_mkdir {perm : Perm} (h : fs.mkdir path perm = some fs') :
    ∃ l, fs.entryOf path = some l ∧ fs.node l = none ∧ fs' = fs.set l (some (.dir perm)) := by
  obtain ⟨l, hl, h⟩ := Option.bind_eq_some_iff.mp h
  split at h
  · rename_i hc
    cases h
    exact ⟨l, entryOf_of_entry hl, hc, rfl⟩
  · cases h

theorem of_creat {l : Loc} (h : fs.creat path = some (l, fs')) :
    (∃ k, fs.lead false path = some (l, k)) ∧ fs.isDir l = false ∧ fs.target l = none ∧
      ∃ perm, fs' = fs.set l (some (.file perm [])) := by
  obtain ⟨⟨l', k⟩, hl, h⟩ := Option.bind_eq_some_iff.mp h
  dsimp only at h
  unfold isDir target
  split at h
  · rename_i hn
    cases h
    rw [hn]
    exact ⟨⟨k, hl⟩, rfl, rfl, _, rfl⟩
  · rename_i hn
    cases h
    rw [hn]
    exact ⟨⟨k, hl⟩, rfl, rfl, _, rfl⟩
  · cases h

/-- Nothing is below a location where nothing is. -/
theorem node_none_below {l m : Loc} (h : fs.node l = none) (hm : l <+: m) : fs.node m = none := by
  obtain ⟨t, rfl⟩ := hm
  induction t using List.reverseRecOn with
  | nil => rwa [List.append_nil]
  | append_singleton t n ih =>
    cases hn : fs.node (l ++ (t ++ [n])) with
    | none => rfl
    | some x =>
      rw [← List.append_assoc] at hn
      have hdir : fs.isDir (l ++ t) = true := isDir_of_append (by rw [hn]; rfl)
      have hsome := isSome_of_isDir hdir
      rw [ih] at hsome
      cases hsome

theorem target_of_node_none {l : Loc} (h : fs.node l = none) : fs.target l = none := by
  unfold target
  rw [h]

theorem isDir_of_node_none {l : Loc} (h : fs.node l = none) : fs.isDir l = false := by
  unfold isDir
  rw [h]
  rfl

theorem proper_of_mem_list {n : Name} (h : n ∈ fs.list l) : Proper n :=
  (fs.covers l n (List.mem_filter.mp h).2).2

end Tree

end Files
