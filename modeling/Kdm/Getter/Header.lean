import Kdm.Getter.Names
import Kdm.Getter.Precedence
import Kdm.Lib.Lines

/-!
# Section headers

How `readConfig` (`kdm_config.c`) takes the header of a section apart.  The loops count the length
that is left down while they count a length up.

* `readHeader` — a line that starts with `[`, without the newline.
* `Header` — a header for displays as it is written: a host, maybe a number, maybe a class.

Principal results: `header_split_iff`, `header_never_served`, `header_law_iff`.
-/

namespace Kdm.Getter

open Codec Ipc

/-! ## Taking a header apart -/

/-- The sections that there are; two of them are for displays. -/
inductive Kind where
  | general
  | xdmcp
  | shutdown
  | core
  | greeter
  deriving DecidableEq, Repr

def Kind.name : Kind → Bytes
  | .general => ascii "General"
  | .xdmcp => ascii "Xdmcp"
  | .shutdown => ascii "Shutdown"
  | .core => ascii "-Core"
  | .greeter => ascii "-Greeter"

def allSects : List Kind := [.general, .xdmcp, .shutdown, .core, .greeter]

/-- A loop that counts a length up to the character `c` while it counts down what is left; nothing
is left when it does not find `c`. -/
def countLoop (c : UInt8) (buf : Bytes) (len : Nat) : Nat → Nat × Nat
  | 0 => (len, 0)
  | restl + 1 => if buf[len]? = some c then (len, restl + 1) else countLoop c buf (len + 1) restl

/-- Host, number and class; a header without a number or a class has `*` there. -/
def splitSpec (dhost : Bytes) (dlen : Nat) : DSpec :=
  let (dhostl, restl) := countLoop 58 dhost 0 dlen
  if restl = 0 then { dhost := dhost.take dhostl, dnum := [42], dclass := [42] }
  else
    let dnum := dhost.drop (dhostl + 1)
    let (dnuml, restl) := countLoop 95 dnum 0 (restl - 1)
    { dhost := dhost.take dhostl
      dnum := dnum.take dnuml
      dclass := if restl = 0 then [42] else (dnum.drop (dnuml + 1)).take restl }

/-- The text from the last `-` on says which section it is. -/
def readName (name : Bytes) : Option (Option DSpec × Kind) :=
  if name.take 2 = [88, 45] then
    let clen := (name.reverse.takeWhile (· ≠ 45)).length + 1
    let cstr := name.drop (name.length - clen)
    if name.length - clen = 1 then none
    else
      let dlen := name.length - clen - 2
      (allSects.find? fun s => s.name == cstr).map fun s => (some (splitSpec (name.drop 2) dlen), s)
  else if name.head? = some 45 then none
  else (allSects.find? fun s => s.name == name).map fun s => (none, s)

/-- The line up to the last character that is not a blank has to end with `]`. -/
def readHeader (line : Bytes) : Option (Option DSpec × Kind) :=
  let line := line.rdropWhile isspace
  if line.getLast? = some 93 then readName line.tail.dropLast else none

/-! ## Headers for displays -/

/-- A header for displays; the class comes with a number. -/
structure Header where
  host : Bytes
  num : Option (Bytes × Option Bytes)
  greeter : Bool
  host_ok : 58 ∉ host
  num_ok : ∀ n ∈ num, 95 ∉ n.1

namespace Header

variable (hd : Header)

def kind : Kind := if hd.greeter then .greeter else .core

def cls : Option Bytes := hd.num.bind (·.2)

/-- What stands between `X-` and the section. -/
def spec : Bytes :=
  hd.host ++
    match hd.num with
    | none => []
    | some (n, none) => 58 :: n
    | some (n, some c) => 58 :: n ++ 95 :: c

def text : Bytes := [91, 88, 45] ++ hd.spec ++ hd.kind.name ++ [93]

/-- What the header says; a part that is missing stands for any. -/
def dspec : DSpec :=
  { dhost := hd.host
    dnum := match hd.num with
      | none => [42]
      | some (n, _) => n
    dclass := hd.cls.getD [42] }

end Header

/-! ## What the loops find -/

theorem countLoop_skip {c : UInt8} (p w r : Bytes) (hw : c ∉ w) (k : Nat) :
    countLoop c (p ++ w ++ r) p.length (w.length + k) =
      countLoop c (p ++ w ++ r) (p.length + w.length) k := by
  induction w generalizing p with
  | nil => simp
  | cons x w ih =>
    rw [List.mem_cons, not_or] at hw
    have hget : (p ++ (x :: w) ++ r)[p.length]? = some x := by simp
    have hne : ¬ (some x : Option UInt8) = some c := fun h => hw.1 (Option.some.inj h).symm
    have hs : p ++ (x :: w) ++ r = (p ++ [x]) ++ w ++ r := by simp
    have hlen : (x :: w).length + k = (w.length + k) + 1 := by simp; omega
    have h := ih (p ++ [x]) hw.2
    rw [List.length_append, List.length_singleton] at h
    rw [hlen, countLoop, hget, if_neg hne, hs, h, List.length_cons]
    congr 1
    omega

theorem countLoop_found {c : UInt8} {w : Bytes} (hw : c ∉ w) (r : Bytes) (k : Nat) :
    countLoop c (w ++ c :: r) 0 (w.length + (k + 1)) = (w.length, k + 1) := by
  have h := countLoop_skip [] w (c :: r) hw (k + 1)
  rw [List.nil_append, List.length_nil, Nat.zero_add] at h
  rw [h, countLoop, if_pos (by simp)]

theorem countLoop_end {c : UInt8} {w : Bytes} (hw : c ∉ w) (r : Bytes) :
    countLoop c (w ++ r) 0 w.length = (w.length, 0) := by
  have h := countLoop_skip [] w r hw 0
  rw [List.nil_append, List.length_nil, Nat.zero_add, Nat.add_zero] at h
  rw [h]
  rfl

theorem splitSpec_host {h : Bytes} (hh : 58 ∉ h) (r : Bytes) :
    splitSpec (h ++ r) h.length = ⟨h, [42], [42]⟩ := by
  unfold splitSpec
  rw [countLoop_end hh]
  simp

theorem splitSpec_number {h n : Bytes} (hh : 58 ∉ h) (hn : 95 ∉ n) (r : Bytes) :
    splitSpec ((h ++ 58 :: n) ++ r) (h ++ 58 :: n).length = ⟨h, n, [42]⟩ := by
  have hlen : (h ++ 58 :: n).length = h.length + (n.length + 1) := by simp
  rw [List.append_assoc, List.cons_append, hlen]
  unfold splitSpec
  rw [countLoop_found hh]
  simp [countLoop_end hn]

/-- The class that is found has one character of what follows. -/
theorem splitSpec_class {h n : Bytes} (hh : 58 ∉ h) (hn : 95 ∉ n) (c r : Bytes) :
    splitSpec ((h ++ (58 :: n ++ 95 :: c)) ++ r) (h ++ (58 :: n ++ 95 :: c)).length =
      ⟨h, n, (c ++ r).take (c.length + 1)⟩ := by
  have hlen : (h ++ (58 :: n ++ 95 :: c)).length = h.length + ((n.length + (c.length + 1)) + 1) := by
    simp
  have hbuf : (h ++ (58 :: n ++ 95 :: c)) ++ r = h ++ 58 :: (n ++ 95 :: (c ++ r)) := by simp
  rw [hbuf, hlen]
  unfold splitSpec
  rw [countLoop_found hh]
  simp [countLoop_found hn]

/-! ## From the line to the parts -/

/-- The length of the section, counted from the end. -/
theorem reverse_takeWhile_dash (p : Bytes) {w : Bytes} (hw : 45 ∉ w) :
    ((p ++ 45 :: w).reverse.takeWhile (· ≠ 45)).length = w.length := by
  have hw' : ∀ a ∈ w.reverse, decide (a ≠ 45) = true := fun a ha =>
    decide_eq_true fun he => hw (he ▸ List.mem_reverse.mp ha)
  rw [List.reverse_append, List.reverse_cons, List.append_assoc, List.takeWhile_append_of_pos hw']
  simp

/-- The section begins with the last `-`. -/
theorem readName_display (spec : Bytes) {k : Kind} (hk : k = .core ∨ k = .greeter) :
    readName ([88, 45] ++ spec ++ k.name) =
      some (some (splitSpec (spec ++ k.name) spec.length), k) := by
  -- the name of the section without its first character
  obtain ⟨w, hname, hw⟩ : ∃ w, k.name = 45 :: w ∧ 45 ∉ w := by
    rcases hk with rfl | rfl
    · exact ⟨ascii "Core", rfl, by decide⟩
    · exact ⟨ascii "Greeter", rfl, by decide⟩
  have hfind : allSects.find? (fun s => s.name == k.name) = some k := by
    rcases hk with rfl | rfl <;> rfl
  have hclen := reverse_takeWhile_dash ([88, 45] ++ spec) hw
  have hlen : ([88, 45] ++ spec ++ k.name).length - (w.length + 1) = spec.length + 2 := by
    rw [hname]
    simp
    omega
  have hcstr : ([88, 45] ++ spec ++ k.name).drop (spec.length + 2) = k.name :=
    List.drop_left' (by simp)
  have hdrop : ([88, 45] ++ spec ++ k.name).drop 2 = spec ++ k.name := rfl
  rw [← hname] at hclen
  unfold readName
  rw [if_pos (by rfl), hclen]
  dsimp only
  rw [hlen, if_neg (by omega), hcstr, hfind, hdrop]
  rfl

theorem readHeader_text (name : Bytes) : readHeader ([91] ++ name ++ [93]) = readName name := by
  have hline : ([91] ++ name ++ [93]).rdropWhile isspace = [91] ++ name ++ [93] :=
    List.rdropWhile_concat_neg _ _ _ (by decide)
  have hlast : ([91] ++ name ++ [93]).getLast? = some 93 := List.getLast?_concat
  have hname : ([91] ++ name ++ [93]).tail.dropLast = name := by simp
  unfold readHeader
  dsimp only
  rw [hline, if_pos hlast, hname]

/-- What the reader makes of a header for displays. -/
theorem readHeader_header (hd : Header) :
    readHeader hd.text = some (some (splitSpec (hd.spec ++ hd.kind.name) hd.spec.length), hd.kind) := by
  have hk : hd.kind = .core ∨ hd.kind = .greeter := by
    unfold Header.kind
    cases hd.greeter <;> simp
  have ht : hd.text = [91] ++ ([88, 45] ++ hd.spec ++ hd.kind.name) ++ [93] := rfl
  rw [ht, readHeader_text, readName_display hd.spec hk]

/-- The first character of the section ends up in the class. -/
theorem splitSpec_spec (hd : Header) :
    splitSpec (hd.spec ++ hd.kind.name) hd.spec.length =
      { hd.dspec with dclass := (hd.cls.map (· ++ [45])).getD [42] } := by
  obtain ⟨w, hname⟩ : ∃ w, hd.kind.name = 45 :: w := by
    unfold Header.kind
    cases hd.greeter
    · exact ⟨ascii "Core", rfl⟩
    · exact ⟨ascii "Greeter", rfl⟩
  obtain ⟨h, num, gr, hh, hn⟩ := hd
  rcases num with _ | ⟨n, _ | c⟩
  · simpa [Header.spec, Header.dspec, Header.cls] using splitSpec_host hh _
  · exact splitSpec_number hh (hn _ rfl) _
  · have hs := splitSpec_class hh (hn _ rfl) c (Kind.name (Header.kind ⟨h, some (n, some c), gr, hh, hn⟩))
    have htake : (c ++ 45 :: w).take (c.length + 1) = c ++ [45] := by
      rw [show c ++ 45 :: w = (c ++ [45]) ++ w by simp]
      exact List.take_left' (by simp)
    rw [hname, htake] at hs
    rw [hname]
    exact hs

/-! ## The law of headers -/

/-- The reader gets the parts as they are written. -/
def Header.Split (hd : Header) : Prop := readHeader hd.text = some (some hd.dspec, hd.kind)

/-- A display with a name and a class `c`, from any of the three places. -/
inductive Made (name c : Bytes) : NewDisplay → Prop where
  | servers (h : (addServer (name ++ 95 :: c)).name = name) : Made name c (addServer (name ++ 95 :: c))
  | manage (d : NewDisplay) (h : manageCommand name (some c) = some d) : Made name c d
  | packet : Made name c (managePacket name c)

/-- The class as the config reader receives it, up to its terminator. -/
def NewDisplay.classSent (d : NewDisplay) : Bytes := (d.class2.getD []).takeWhile (· ≠ 0)

/-- The section is for the display. -/
def Serves (line : Bytes) (d : NewDisplay) : Prop :=
  ∃ sec kind dspec cl, readHeader line = some (some sec, kind) ∧
    mkDSpec d.name d.classSent = some dspec ∧ Matches sec dspec cl

/-- A header with a number and a class is for the displays that it names. -/
def Header.Served (hd : Header) : Prop :=
  ∀ n c, hd.num = some (n, some c) → ∀ d, Made (hd.host ++ 58 :: n) c d → Serves hd.text d

/-- The class of a display never ends with the separator that follows the class of a header. -/
theorem Made.class_ne {name c : Bytes} {d : NewDisplay} (h : Made name c d) :
    d.classSent ≠ c ++ [45] := by
  intro he
  have hlen : d.classSent.length = c.length + 1 := by rw [he, List.length_append]; rfl
  have hle : ∀ s : Bytes, (s.takeWhile (· ≠ 0)).length ≤ s.length := fun s =>
    (List.takeWhile_prefix _).length_le
  cases h with
  | servers hname =>
    have hcls : (addServer (name ++ 95 :: c)).class2 = some (95 :: c) := by
      unfold addServer at hname ⊢
      rw [if_pos (by simp)] at hname ⊢
      have hn : 95 ∉ name := hname ▸ Lines.not_mem_takeWhile 95 _
      exact congrArg some (Lines.dropWhile_append_cons hn c)
    unfold NewDisplay.classSent at he hlen
    rw [hcls, Option.getD_some] at he hlen
    -- nothing is cut off, and then there is one `_` too many
    have hwhole := (List.takeWhile_prefix (p := (· ≠ (0 : UInt8)))).eq_of_length hlen
    rw [hwhole] at he
    have hcount := congrArg (List.count 95) he
    simp at hcount
  | manage d hd =>
    unfold manageCommand at hd
    split at hd
    · cases hd
    · cases hd
      have hc : (Option.bind (some c) fun c => if c = [] then none else some c).getD [] = c := by
        rw [Option.bind_some]
        split
        · next hnil => exact hnil.symm
        · rfl
      unfold NewDisplay.classSent at hlen
      rw [hc] at hlen
      have := hle c
      omega
  | packet =>
    have hc : (managePacket name c).class2.getD [] = c := by
      unfold managePacket
      dsimp only
      split
      · next hnil => exact (List.length_eq_zero_iff.mp hnil).symm
      · rfl
    unfold NewDisplay.classSent at hlen
    rw [hc] at hlen
    have := hle c
    omega

/-- **A header with a class is for no display that it names**, wherever the class is from. -/
theorem header_never_served {hd : Header} {n c : Bytes} (h : hd.num = some (n, some c))
    {name : Bytes} {d : NewDisplay} (hm : Made name c d) : ¬ Serves hd.text d := by
  rintro ⟨sec, kind, dspec, cl, hr, hd', hmatch⟩
  have hcls : hd.cls = some c := by rw [Header.cls, h]; rfl
  rw [readHeader_header, splitSpec_spec, hcls] at hr
  cases hr
  rw [mkDSpec_eq] at hd'
  obtain ⟨i, -, rfl⟩ := Option.map_eq_some_iff.mp hd'
  have hc : MatchesPart (c ++ [45]) d.classSent cl.cls := hmatch.cls
  generalize hp : c ++ [45] = p at hc
  generalize cl.cls = m at hc
  cases hc with
  | any =>
    have hlast := congrArg List.getLast? hp
    rw [List.getLast?_concat] at hlast
    cases hlast
  | exact => exact hm.class_ne hp.symm

/-- **A header is split right exactly if it has no class.** -/
theorem header_split_iff (hd : Header) : hd.Split ↔ hd.cls = none := by
  unfold Header.Split
  rw [readHeader_header, splitSpec_spec]
  cases hc : hd.cls with
  | none =>
    refine ⟨fun _ => rfl, fun _ => ?_⟩
    unfold Header.dspec
    rw [hc]
    rfl
  | some c =>
    refine ⟨fun h => ?_, fun h => by cases h⟩
    have hcls : (c ++ [45] : Bytes) = c := by
      have hd' := congrArg (fun p => p.1.map DSpec.dclass) (Option.some.inj h)
      rw [Header.dspec, hc] at hd'
      exact Option.some.inj hd'
    simp at hcls

theorem header_served_iff (hd : Header) : hd.Served ↔ hd.cls = none := by
  constructor
  · intro h
    by_contra hne
    obtain ⟨c, hc⟩ := Option.ne_none_iff_exists'.mp hne
    obtain ⟨⟨n, c'⟩, hn, rfl⟩ := Option.bind_eq_some_iff.mp hc
    exact header_never_served hn .packet (h n c hn _ .packet)
  · intro h n c hn
    rw [Header.cls, hn] at h
    cases h

/-- **Headers without a class are split right, the others never are and serve nobody.** -/
theorem header_law_iff (hd : Header) : hd.Split ∧ hd.Served ↔ hd.cls = none := by
  rw [header_split_iff, header_served_iff, and_self]

/-- The header `[X-h:0_c-Core]`. -/
theorem not_header_law : ¬ ∀ hd : Header, hd.Split ∧ hd.Served := by
  intro h
  have hlaw := (h ⟨[104], some ([48], some [99]), false, by decide, by rintro n ⟨⟩; decide⟩).1
  rw [header_split_iff] at hlaw
  cases hlaw

end Kdm.Getter
