import Kdm.Getter.Values
import Kdm.Lib.Best

/-!
# Which section wins

A display can match several sections of the configuration, and each key is taken from the most
specific one that has it.  `Matches` says what a section matches and how closely, without the
scores of the source: the host counts before the number, and the number before the class.

Principal result: `findDEnt_precedence`.
-/

namespace Kdm.Getter

open Codec Ipc

/-! ## How closely a section matches -/

/-- How the host of a section matches, from the least specific way to the exact name. -/
inductive HostMatch where
  | any
  | nonempty
  | trail
  | exact
  deriving DecidableEq, Repr

def HostMatch.level : HostMatch → Nat
  | .any => 0
  | .nonempty => 1
  | .trail => 2
  | .exact => 3

theorem HostMatch.level_injective : Function.Injective HostMatch.level := by
  intro a b h
  cases a <;> cases b <;> first | rfl | cases h

/-- The host pattern `p` of a section matches the host `h` of a display. -/
inductive MatchesHost : Bytes → Bytes → HostMatch → Prop where
  | any (h : Bytes) : MatchesHost [42] h .any
  | nonempty (h : Bytes) (hne : h ≠ []) : MatchesHost [43] h .nonempty
  | trail (p h : Bytes) (hdot : p.head? = some 46) (hlen : p.length < h.length) (hsuf : p <:+ h) :
      MatchesHost p h .trail
  | exact (h : Bytes) (hany : h ≠ [42]) (hne : h ≠ [43]) (hdot : h.head? ≠ some 46) :
      MatchesHost h h .exact

/-- The number or the class of a section matches that of a display, exactly or as `*`. -/
inductive MatchesPart : Bytes → Bytes → Bool → Prop where
  | any (x : Bytes) : MatchesPart [42] x false
  | exact (x : Bytes) (hany : x ≠ [42]) : MatchesPart x x true

/-- How closely a section matches: its host, and whether its number and its class are exact. -/
structure Closeness where
  host : HostMatch
  num : Bool
  cls : Bool
  deriving DecidableEq, Repr

/-- The host decides first, then the number, then the class. -/
def Closeness.AtMost (a b : Closeness) : Prop :=
  a.host.level < b.host.level ∨
    a.host = b.host ∧ (a.num < b.num ∨ a.num = b.num ∧ a.cls ≤ b.cls)

/-- The section is for the display. -/
structure Matches (sec dspec : DSpec) (cl : Closeness) : Prop where
  host : MatchesHost sec.dhost dspec.dhost cl.host
  num : MatchesPart sec.dnum dspec.dnum cl.num
  cls : MatchesPart sec.dclass dspec.dclass cl.cls

/-! ## The scores -/

/-- The score of the source for a match. -/
def Closeness.score (cl : Closeness) : Nat := cl.cls.toNat + 2 * cl.num.toNat + 4 * cl.host.level

/-- The scores are ordered as the matches are. -/
theorem Closeness.score_le_iff (a b : Closeness) : a.score ≤ b.score ↔ a.AtMost b := by
  obtain ⟨ha, na, ca⟩ := a
  obtain ⟨hb, nb, cb⟩ := b
  have hinj : ha = hb ↔ ha.level = hb.level := HostMatch.level_injective.eq_iff.symm
  have hlt : na < nb ↔ na.toNat < nb.toNat := by cases na <;> cases nb <;> decide
  have heq : na = nb ↔ na.toNat = nb.toNat := by cases na <;> cases nb <;> decide
  have hle : ca ≤ cb ↔ ca.toNat ≤ cb.toNat := by cases ca <;> cases cb <;> decide
  have hna := Bool.toNat_le na
  have hnb := Bool.toNat_le nb
  have hca := Bool.toNat_le ca
  have hcb := Bool.toNat_le cb
  unfold Closeness.score Closeness.AtMost
  simp only [hinj, hlt, heq, hle]
  omega

/-- What the source tests for the host. -/
def hostScore (p h : Bytes) : Option Nat :=
  if p = [42] then some 0
  else if p = [43] then if h ≠ [] then some 4 else none
  else if p.head? = some 46 then if p.length < h.length ∧ p <:+ h then some 8 else none
  else if p = h then some 12 else none

theorem hostScore_eq_some {p h : Bytes} {k : Nat} :
    hostScore p h = some k ↔ ∃ m, MatchesHost p h m ∧ k = 4 * m.level := by
  unfold hostScore
  constructor
  · intro hk
    split at hk
    · next hp =>
      cases hk
      exact ⟨.any, hp ▸ .any h, rfl⟩
    · next hany =>
      split at hk
      · next hp =>
        split at hk
        · next hne =>
          cases hk
          exact ⟨.nonempty, hp ▸ .nonempty h hne, rfl⟩
        · cases hk
      · next hplus =>
        split at hk
        · next hdot =>
          split at hk
          · next ht =>
            cases hk
            exact ⟨.trail, .trail p h hdot ht.1 ht.2, rfl⟩
          · cases hk
        · next hdot =>
          split at hk
          · next hp =>
            cases hk
            exact ⟨.exact, hp ▸ .exact p hany hplus hdot, rfl⟩
          · cases hk
  · rintro ⟨m, hm, rfl⟩
    cases hm with
    | any => rfl
    | nonempty _ hne => rw [if_neg (by decide), if_pos rfl, if_pos hne]; rfl
    | trail _ _ hdot hlen hsuf =>
      have hany : p ≠ [42] := by
        rintro rfl
        cases hdot
      have hplus : p ≠ [43] := by
        rintro rfl
        cases hdot
      rw [if_neg hany, if_neg hplus, if_pos hdot, if_pos ⟨hlen, hsuf⟩]
      rfl
    | exact _ hany hne hdot => rw [if_neg hany, if_neg hne, if_neg hdot, if_pos rfl]; rfl

/-- What the source tests for the number and for the class. -/
def partScore (p x : Bytes) (exact : Nat) : Option Nat :=
  if p = [42] then some 0 else if p = x then some exact else none

theorem partScore_eq_some {p x : Bytes} {exact k : Nat} :
    partScore p x exact = some k ↔ ∃ m, MatchesPart p x m ∧ k = exact * m.toNat := by
  unfold partScore
  constructor
  · intro hk
    split at hk
    · next hp =>
      cases hk
      exact ⟨false, hp ▸ .any x, rfl⟩
    · next hany =>
      split at hk
      · next hp =>
        cases hk
        exact ⟨true, hp ▸ .exact p hany, (Nat.mul_one _).symm⟩
      · cases hk
  · rintro ⟨m, hm, rfl⟩
    cases hm with
    | any => rfl
    | exact _ hany => rw [if_neg hany, if_pos rfl]; exact congrArg some (Nat.mul_one _).symm

theorem score_eq (sec dspec : DSpec) :
    score sec dspec = (partScore sec.dclass dspec.dclass 1).bind fun cls =>
      (partScore sec.dnum dspec.dnum 2).bind fun num =>
        (hostScore sec.dhost dspec.dhost).map fun host => cls + num + host := by
  unfold score partScore hostScore
  repeat' split
  all_goals rfl

/-- A section has a score exactly if it matches, and the score says how closely. -/
theorem score_eq_some {sec dspec : DSpec} {k : Nat} :
    score sec dspec = some k ↔ ∃ cl, Matches sec dspec cl ∧ k = cl.score := by
  rw [score_eq]
  simp only [Option.bind_eq_some_iff, Option.map_eq_some_iff, partScore_eq_some, hostScore_eq_some]
  constructor
  · rintro ⟨_, ⟨c, hc, rfl⟩, _, ⟨n, hn, rfl⟩, _, ⟨h, hh, rfl⟩, rfl⟩
    refine ⟨⟨h, n, c⟩, ⟨hh, hn, hc⟩, ?_⟩
    show 1 * c.toNat + 2 * n.toNat + 4 * h.level = c.toNat + 2 * n.toNat + 4 * h.level
    omega
  · rintro ⟨cl, hm, rfl⟩
    refine ⟨_, ⟨_, hm.cls, rfl⟩, _, ⟨_, hm.num, rfl⟩, _, ⟨_, hm.host, rfl⟩, ?_⟩
    unfold Closeness.score
    omega

/-! ## The search -/

/-- What a section offers for a key of a display: its score and the entry. -/
def offer (id : BitVec 32) (dspec : DSpec) (sec : Section) : Option (Nat × Entry) :=
  (sec.dspec.bind (score · dspec)).bind fun k => (sec.find id).map fun e => (k, e)

theorem findDEnt_eq (rootsec : List Section) (id : BitVec 32) (dspec : DSpec) :
    findDEnt rootsec id dspec =
      (rootsec.foldl (Best.better (offer id dspec)) none).map (·.2) := by
  unfold findDEnt
  congr 2
  funext best sec
  unfold Best.better offer
  cases hs : sec.dspec.bind (score · dspec) with
  | none => rfl
  | some k =>
    cases hf : sec.find id with
    | none =>
      dsimp only [Option.bind_some, Option.map_none]
      split <;> rfl
    | some e => rfl

theorem offer_eq_some {id : BitVec 32} {dspec : DSpec} {sec : Section} {k : Nat} {e : Entry} :
    offer id dspec sec = some (k, e) ↔
      (∃ ds cl, sec.dspec = some ds ∧ Matches ds dspec cl ∧ k = cl.score) ∧
        sec.find id = some e := by
  unfold offer
  simp only [Option.bind_eq_some_iff, Option.map_eq_some_iff, Prod.mk.injEq, score_eq_some]
  constructor
  · rintro ⟨_, ⟨ds, hds, cl, hm, rfl⟩, _, hf, rfl, rfl⟩
    exact ⟨⟨ds, cl, hds, hm, rfl⟩, hf⟩
  · rintro ⟨⟨ds, cl, hds, hm, rfl⟩, hf⟩
    exact ⟨_, ⟨ds, hds, cl, hm, rfl⟩, e, hf, rfl, rfl⟩

/-- A section contains the key. -/
def Section.Has (sec : Section) (id : BitVec 32) : Prop := ∃ e ∈ sec.entries, e.id = id

theorem Section.find_isSome_iff (sec : Section) (id : BitVec 32) :
    (sec.find id).isSome ↔ sec.Has id := by
  unfold Section.find Section.Has
  simp

/-- The section is one of the configuration that is for the display and has the key. -/
structure Candidate (rootsec : List Section) (id : BitVec 32) (dspec : DSpec) (sec : Section)
    (cl : Closeness) : Prop where
  mem : sec ∈ rootsec
  fits : ∃ ds, sec.dspec = some ds ∧ Matches ds dspec cl
  has : sec.Has id

/-- **A key is found if a matching section has it, and then in a section that matches as closely
as any of these.** -/
theorem findDEnt_precedence (rootsec : List Section) (id : BitVec 32) (dspec : DSpec) :
    ((findDEnt rootsec id dspec).isSome ↔ ∃ sec cl, Candidate rootsec id dspec sec cl) ∧
      ∀ e, findDEnt rootsec id dspec = some e →
        ∃ sec cl, Candidate rootsec id dspec sec cl ∧ sec.find id = some e ∧
          ∀ sec' cl', Candidate rootsec id dspec sec' cl' → cl'.AtMost cl := by
  have hbest := Best.isBest_foldl (offer id dspec) rootsec
  rw [findDEnt_eq]
  -- an offer is a candidate and the other way round
  have hcand : ∀ sec k e, sec ∈ rootsec → offer id dspec sec = some (k, e) →
      ∃ cl, Candidate rootsec id dspec sec cl ∧ k = cl.score ∧ sec.find id = some e := by
    intro sec k e hsec ho
    obtain ⟨⟨ds, cl, hds, hm, hk⟩, hf⟩ := offer_eq_some.mp ho
    exact ⟨cl, ⟨hsec, ⟨ds, hds, hm⟩, (sec.find_isSome_iff id).mp (by rw [hf]; rfl)⟩, hk, hf⟩
  have hoffer : ∀ sec cl, Candidate rootsec id dspec sec cl →
      ∃ e, offer id dspec sec = some (cl.score, e) := by
    intro sec cl hc
    obtain ⟨ds, hds, hm⟩ := hc.fits
    obtain ⟨e, he⟩ := Option.isSome_iff_exists.mp ((sec.find_isSome_iff id).mpr hc.has)
    exact ⟨e, offer_eq_some.mpr ⟨⟨ds, cl, hds, hm, rfl⟩, he⟩⟩
  refine ⟨?_, fun e he => ?_⟩
  · rw [Option.isSome_map, hbest.isSome_iff]
    constructor
    · rintro ⟨sec, hsec, hs⟩
      obtain ⟨⟨k, e⟩, ho⟩ := Option.isSome_iff_exists.mp hs
      obtain ⟨cl, hc, -, -⟩ := hcand sec k e hsec ho
      exact ⟨sec, cl, hc⟩
    · rintro ⟨sec, cl, hc⟩
      obtain ⟨e, ho⟩ := hoffer sec cl hc
      exact ⟨sec, hc.mem, by rw [ho]; rfl⟩
  · obtain ⟨⟨k, e'⟩, hr, rfl⟩ := Option.map_eq_some_iff.mp he
    rw [hr] at hbest
    obtain ⟨⟨sec, hsec, ho⟩, hmax⟩ := hbest
    obtain ⟨cl, hc, rfl, hf⟩ := hcand sec k e' hsec ho
    refine ⟨sec, cl, hc, hf, fun sec' cl' hc' => ?_⟩
    obtain ⟨e₂, ho'⟩ := hoffer sec' cl' hc'
    exact (cl'.score_le_iff cl).mp (hmax sec' hc'.mem _ ho')

end Kdm.Getter
