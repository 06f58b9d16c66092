import Mathlib.Algebra.Ring.Int.Defs
import Mathlib.Algebra.Ring.Nat
import Mathlib.Data.List.Basic
import Mathlib.Data.List.Forall2

/-!
# Self-delimiting codes over a stream

One end writes values to a stream, the other end reads them in the same order.  A reader takes
what it needs from the front of the stream, or it fails.

* `Exact sent recv v P` — if `P` holds, `sent` is what a writer puts on the stream for `v`, and
  the reader takes exactly that and returns `v`; if not, it returns something else or one of the
  ends fails.
* `Exact.map`, `Exact.then`, `Exact.all` — exactness of readers that are put together.

Principal result: `Exact.faithful_iff`, the exact condition under which a stream is read back.
-/

namespace Codec

variable {β α γ ι : Type*}

/-- A reader of a stream. -/
abbrev Reader (β α : Type*) := List β → Option (α × List β)

/-- `P` is the exact condition under which `v` is written and read back. -/
structure Exact (sent : Option (List β)) (recv : Reader β α) (v : α) (P : Prop) : Prop where
  ok : P → ∃ bytes, sent = some bytes ∧ ∀ rest, recv (bytes ++ rest) = some (v, rest)
  bad : ¬ P → ∀ bytes, sent = some bytes → ∀ rest r, recv (bytes ++ rest) ≠ some (v, r)

/-- What is written is read back, and nothing behind it is touched. -/
def Faithful (sent : Option (List β)) (recv : Reader β α) (v : α) : Prop :=
  ∃ bytes, sent = some bytes ∧ ∀ rest, recv (bytes ++ rest) = some (v, rest)

theorem Exact.faithful_iff {sent : Option (List β)} {recv : Reader β α} {v : α} {P : Prop}
    (h : Exact sent recv v P) : Faithful sent recv v ↔ P := by
  refine ⟨fun ⟨bytes, hs, hr⟩ => ?_, h.ok⟩
  by_contra hP
  exact h.bad hP bytes hs [] [] (hr [])

theorem Exact.congr {sent : Option (List β)} {recv : Reader β α} {v : α} {P Q : Prop}
    (h : Exact sent recv v P) (hPQ : P ↔ Q) : Exact sent recv v Q :=
  ⟨fun hQ => h.ok (hPQ.mpr hQ), fun hQ => h.bad fun hP => hQ (hPQ.mp hP)⟩

/-! ## Putting readers together -/

def Reader.pure (v : α) : Reader β α := fun s => some (v, s)

def Reader.map (f : α → γ) (recv : Reader β α) : Reader β γ :=
  fun s => (recv s).map fun r => (f r.1, r.2)

def Reader.bind (recv : Reader β α) (k : α → Reader β γ) : Reader β γ :=
  fun s => (recv s).bind fun r => k r.1 r.2

/-- One value after the other. -/
def Reader.cons (recv : Reader β α) (recvs : Reader β (List α)) : Reader β (List α) :=
  recv.bind fun a => recvs.map (a :: ·)

def readAll : List (Reader β α) → Reader β (List α)
  | [] => Reader.pure []
  | recv :: recvs => recv.cons (readAll recvs)

def sendAll : List (Option (List β)) → Option (List β)
  | [] => some []
  | sent :: rest => sent.bind fun a => (sendAll rest).map (a ++ ·)

theorem Reader.bind_some {recv : Reader β α} {k : α → Reader β γ} {s s' : List β} {a : α}
    (h : recv s = some (a, s')) : recv.bind k s = k a s' := by
  unfold Reader.bind
  rw [h]
  rfl

theorem Reader.map_eq_some {f : α → γ} {recv : Reader β α} {s s' : List β} {c : γ} :
    recv.map f s = some (c, s') ↔ ∃ a, recv s = some (a, s') ∧ f a = c := by
  unfold Reader.map
  constructor
  · intro h
    obtain ⟨⟨a, r⟩, ha, hc⟩ := Option.map_eq_some_iff.mp h
    cases hc
    exact ⟨a, ha, rfl⟩
  · rintro ⟨a, ha, rfl⟩
    rw [ha]
    rfl

theorem Reader.bind_eq_some {recv : Reader β α} {k : α → Reader β γ} {s s' : List β} {c : γ} :
    recv.bind k s = some (c, s') ↔ ∃ a s1, recv s = some (a, s1) ∧ k a s1 = some (c, s') := by
  unfold Reader.bind
  constructor
  · intro h
    obtain ⟨⟨a, s1⟩, ha, hc⟩ := Option.bind_eq_some_iff.mp h
    exact ⟨a, s1, ha, hc⟩
  · rintro ⟨a, s1, ha, hc⟩
    rw [ha]
    exact hc

variable {sent sent' : Option (List β)} {recv : Reader β α} {v : α} {P Q : Prop}

/-- A reader that wraps the value keeps its condition. -/
theorem Exact.map {f : α → γ} (hf : Function.Injective f) (h : Exact sent recv v P) :
    Exact sent (recv.map f) (f v) P where
  ok hP := by
    obtain ⟨bytes, hs, hr⟩ := h.ok hP
    refine ⟨bytes, hs, fun rest => Reader.map_eq_some.mpr ⟨v, hr rest, rfl⟩⟩
  bad hP bytes hs rest r hm := by
    obtain ⟨a, ha, hfa⟩ := Reader.map_eq_some.mp hm
    exact h.bad hP bytes hs rest r (hf hfa ▸ ha)

/-- **One value after the other.** -/
theorem Exact.then {recvs : Reader β (List α)} {vs : List α} (h : Exact sent recv v P)
    (h' : Exact sent' recvs vs Q) :
    Exact (sent.bind fun a => sent'.map (a ++ ·)) (recv.cons recvs) (v :: vs) (P ∧ Q) where
  ok hPQ := by
    obtain ⟨b1, hs1, hr1⟩ := h.ok hPQ.1
    obtain ⟨b2, hs2, hr2⟩ := h'.ok hPQ.2
    refine ⟨b1 ++ b2, by rw [hs1, hs2]; rfl, fun rest => ?_⟩
    rw [List.append_assoc]
    exact Reader.bind_eq_some.mpr ⟨v, b2 ++ rest, hr1 _, Reader.map_eq_some.mpr ⟨vs, hr2 rest, rfl⟩⟩
  bad hPQ bytes hs rest r hm := by
    obtain ⟨b1, hs1, hs⟩ := Option.bind_eq_some_iff.mp hs
    obtain ⟨b2, hs2, rfl⟩ := Option.map_eq_some_iff.mp hs
    rw [List.append_assoc] at hm
    obtain ⟨a, s1, ha, hm⟩ := Reader.bind_eq_some.mp hm
    obtain ⟨as, has, heq⟩ := Reader.map_eq_some.mp hm
    cases heq
    by_cases hP : P
    · -- the first value took its own bytes, so the others fail on theirs
      obtain ⟨b1', hs1', hr1⟩ := h.ok hP
      cases hs1.symm.trans hs1'
      cases (hr1 _).symm.trans ha
      exact h'.bad (fun hQ => hPQ ⟨hP, hQ⟩) b2 hs2 rest r has
    · exact h.bad hP b1 hs1 _ _ ha

theorem Exact.nil : Exact (some ([] : List β)) (Reader.pure ([] : List α)) [] True :=
  ⟨fun _ => ⟨[], rfl, fun _ => rfl⟩, fun h => absurd trivial h⟩

/-- **A sequence of values.** -/
theorem Exact.all {sent : ι → Option (List β)} {recv : ι → Reader β α} {v : ι → α} {P : ι → Prop}
    {l : List ι} (h : ∀ i ∈ l, Exact (sent i) (recv i) (v i) (P i)) :
    Exact (sendAll (l.map sent)) (readAll (l.map recv)) (l.map v) (∀ i ∈ l, P i) := by
  induction l with
  | nil => exact Exact.nil.congr (by simp)
  | cons i l ih =>
    have hi := h i List.mem_cons_self
    have hl := ih fun j hj => h j (List.mem_cons_of_mem i hj)
    exact (hi.then hl).congr (by simp)

theorem length_of_readAll {recvs : List (Reader β α)} :
    ∀ {s r : List β} {vs : List α}, readAll recvs s = some (vs, r) → vs.length = recvs.length := by
  induction recvs with
  | nil => intro s r vs h; cases h; rfl
  | cons recv recvs ih =>
    intro s r vs h
    have h : (recv.bind fun a => (readAll recvs).map (a :: ·)) s = some (vs, r) := h
    obtain ⟨a, s1, -, hm⟩ := Reader.bind_eq_some.mp h
    obtain ⟨as, has, rfl⟩ := Reader.map_eq_some.mp hm
    rw [List.length_cons, List.length_cons, ih has]

theorem readAll_sent {recv : Reader β α} {bytes : ι → List β} {val : ι → α} {l : List ι}
    (h : ∀ i ∈ l, ∀ rest, recv (bytes i ++ rest) = some (val i, rest)) (rest : List β) :
    readAll (List.replicate l.length recv) ((l.map bytes).flatten ++ rest) =
      some (l.map val, rest) := by
  induction l with
  | nil => rfl
  | cons i l ih =>
    have hl := ih fun j hj => h j (List.mem_cons_of_mem i hj)
    show (recv.bind fun a => (readAll (List.replicate l.length recv)).map (a :: ·)) _ = _
    rw [List.map_cons, List.flatten_cons, List.append_assoc,
      Reader.bind_some (h i List.mem_cons_self _)]
    exact Reader.map_eq_some.mpr ⟨_, hl, rfl⟩

theorem sendAll_some (l : List (List β)) : sendAll (l.map some) = some l.flatten := by
  induction l with
  | nil => rfl
  | cons a l ih =>
    show (sendAll (l.map some)).map (a ++ ·) = _
    rw [ih]
    rfl

/-! ## Loops that keep a state -/

section Loop

variable {σ : Type*} {step : σ → Reader β (α × σ)}

/-- `n` rounds of a loop; every round reads a value and leaves a state to the next one. -/
def Reader.iterate (step : σ → Reader β (α × σ)) : Nat → σ → Reader β (List α × σ)
  | 0, st => Reader.pure ([], st)
  | n + 1, st => (step st).bind fun r =>
      (Reader.iterate step n r.2).map fun rs => (r.1 :: rs.1, rs.2)

/-- What a loop returns whose rounds return `val` and leave `next`. -/
def threaded (val : ι → σ → α) (next : ι → σ → σ) : List ι → σ → List α × σ
  | [], st => ([], st)
  | i :: l, st =>
    let r := threaded val next l (next i st)
    (val i st :: r.1, r.2)

/-- From a state to another one, by rounds that keep `Q`. -/
def Rounds (Q : σ → α → σ → Prop) : σ → List α → σ → Prop
  | st, [], st' => st = st'
  | st, a :: as, st' => ∃ st1, Q st a st1 ∧ Rounds Q st1 as st'

/-- **A loop reads what was sent for its rounds.** -/
theorem Reader.iterate_sent {bytes : ι → List β} {val : ι → σ → α} {next : ι → σ → σ}
    {I : List ι → σ → Prop}
    (hstep : ∀ i l st, I (i :: l) st →
      (∀ rest, step st (bytes i ++ rest) = some ((val i st, next i st), rest)) ∧ I l (next i st))
    (rest : List β) : ∀ (l : List ι) (st : σ), I l st →
      Reader.iterate step l.length st ((l.map bytes).flatten ++ rest) =
        some (threaded val next l st, rest) := by
  intro l
  induction l with
  | nil => intro st _; rfl
  | cons i l ih =>
    intro st h
    obtain ⟨hread, hnext⟩ := hstep i l st h
    show (step st).bind _ _ = _
    rw [List.map_cons, List.flatten_cons, List.append_assoc, Reader.bind_some (hread _)]
    exact Reader.map_eq_some.mpr ⟨_, ih _ hnext, rfl⟩

theorem threaded_forall₂ {val : ι → σ → α} {next : ι → σ → σ} {R : ι → α → Prop}
    (h : ∀ i st, R i (val i st)) :
    ∀ (l : List ι) (st : σ), List.Forall₂ R l (threaded val next l st).1 := by
  intro l
  induction l with
  | nil => exact fun _ => .nil
  | cons i l ih => exact fun st => .cons (h i st) (ih _)

theorem threaded_map {val : ι → σ → α} {next : ι → σ → σ} {f : α → γ} {g : ι → γ}
    (h : ∀ i st, f (val i st) = g i) :
    ∀ (l : List ι) (st : σ), (threaded val next l st).1.map f = l.map g := by
  intro l
  induction l with
  | nil => exact fun _ => rfl
  | cons i l ih =>
    intro st
    show f (val i st) :: _ = _
    rw [h, ih, List.map_cons]

/-- A measure that grows in every round by the weight of its item. -/
theorem threaded_measure {val : ι → σ → α} {next : ι → σ → σ} {m : σ → Int} {w : ι → Nat}
    (h : ∀ i st, m (next i st) = m st + w i) :
    ∀ (l : List ι) (st : σ), m (threaded val next l st).2 = m st + (l.map w).sum := by
  intro l
  induction l with
  | nil => intro st; simp [threaded]
  | cons i l ih =>
    intro st
    show m (threaded val next l (next i st)).2 = _
    rw [ih, h, List.map_cons, List.sum_cons]
    push_cast
    omega

/-- What holds of every round holds of every value. -/
theorem Rounds.forall {Q : σ → α → σ → Prop} {as : List α} {st st' : σ} (hr : Rounds Q st as st')
    {R : α → Prop} (h : ∀ st a st', Q st a st' → R a) : ∀ a ∈ as, R a := by
  induction as generalizing st with
  | nil => exact nofun
  | cons b as ih =>
    obtain ⟨st1, hb, hrest⟩ := hr
    intro a ha
    rcases List.mem_cons.mp ha with rfl | ha
    · exact h _ _ _ hb
    · exact ih hrest a ha

/-- A measure that grows in every round by the weight of the item that goes with the value. -/
theorem Rounds.measure {Q : σ → α → σ → Prop} {R : ι → α → Prop} {l : List ι} {as : List α}
    (hl : List.Forall₂ R l as) {st st' : σ} (hr : Rounds Q st as st') (m : σ → Int) (w : ι → Nat)
    (h : ∀ i st a st', R i a → Q st a st' → m st' = m st + w i) :
    m st' = m st + (l.map w).sum := by
  induction hl generalizing st with
  | nil =>
    cases hr
    simp
  | cons hR _ ih =>
    obtain ⟨st1, hb, hrest⟩ := hr
    rw [ih hrest, h _ _ _ _ hR hb, List.map_cons, List.sum_cons]
    push_cast
    omega

theorem Rounds.append {Q : σ → α → σ → Prop} {as bs : List α} {st1 st2 st3 : σ}
    (h : Rounds Q st1 as st2) (h' : Rounds Q st2 bs st3) : Rounds Q st1 (as ++ bs) st3 := by
  induction as generalizing st1 with
  | nil =>
    cases h
    exact h'
  | cons a as ih =>
    obtain ⟨st, ha, hrest⟩ := h
    exact ⟨st, ha, ih hrest⟩

/-- Rounds that are loops of their own. -/
theorem Rounds.flatMap {Q : σ → α → σ → Prop} {f : γ → List α} {cs : List γ} {st st' : σ}
    (h : Rounds (fun st c st' => Rounds Q st (f c) st') st cs st') :
    Rounds Q st (cs.flatMap f) st' := by
  induction cs generalizing st with
  | nil => exact h
  | cons c cs ih =>
    obtain ⟨st1, hc, hrest⟩ := h
    rw [List.flatMap_cons]
    exact hc.append (ih hrest)

theorem Rounds.imp {Q Q' : σ → α → σ → Prop} {as : List α} {st st' : σ}
    (hr : Rounds Q st as st') (h : ∀ a ∈ as, ∀ st st', Q st a st' → Q' st a st') :
    Rounds Q' st as st' := by
  induction as generalizing st with
  | nil => exact hr
  | cons a as ih =>
    obtain ⟨st1, hb, hrest⟩ := hr
    exact ⟨st1, h a List.mem_cons_self _ _ hb,
      ih hrest fun b hb => h b (List.mem_cons_of_mem a hb)⟩

/-- **What every round keeps, a loop keeps.** -/
theorem Reader.rounds_of_iterate {n : Nat} {st st' : σ} {s r : List β} {as : List α}
    (h : Reader.iterate step n st s = some ((as, st'), r)) {Q : σ → α → σ → Prop}
    (hstep : ∀ st s a st' r, step st s = some ((a, st'), r) → Q st a st') :
    as.length = n ∧ Rounds Q st as st' := by
  induction n generalizing st s as with
  | zero =>
    cases h
    exact ⟨rfl, rfl⟩
  | succ n ih =>
    have h : (step st).bind _ s = some ((as, st'), r) := h
    obtain ⟨⟨a, st1⟩, s1, ha, hm⟩ := Reader.bind_eq_some.mp h
    obtain ⟨⟨as', st2⟩, hr, heq⟩ := Reader.map_eq_some.mp hm
    cases heq
    obtain ⟨hlen, hrounds⟩ := ih hr
    exact ⟨by rw [List.length_cons, hlen], st1, hstep _ _ _ _ _ ha, hrounds⟩

/-- Every value goes with an item. -/
theorem exists_of_forall₂ {R : ι → α → Prop} {l : List ι} {as : List α}
    (h : List.Forall₂ R l as) : (∀ a ∈ as, ∃ i ∈ l, R i a) ∧ ∀ i ∈ l, ∃ a ∈ as, R i a := by
  induction h with
  | nil => exact ⟨nofun, nofun⟩
  | @cons i a l as hr _ ih =>
    refine ⟨fun b hb => ?_, fun j hj => ?_⟩
    · rcases List.mem_cons.mp hb with rfl | hb
      · exact ⟨i, List.mem_cons_self, hr⟩
      · obtain ⟨j, hj, hjb⟩ := ih.1 b hb
        exact ⟨j, List.mem_cons_of_mem i hj, hjb⟩
    · rcases List.mem_cons.mp hj with rfl | hj
      · exact ⟨a, List.mem_cons_self, hr⟩
      · obtain ⟨b, hb, hjb⟩ := ih.2 j hj
        exact ⟨b, List.mem_cons_of_mem a hb, hjb⟩

end Loop

/-! ## A fixed number of items -/

/-- The next `n` items of the stream. -/
def readN (n : Nat) : Reader β (List β) :=
  fun s => if n ≤ s.length then some (s.take n, s.drop n) else none

theorem readN_append {l : List β} {n : Nat} (h : l.length = n) (rest : List β) :
    readN n (l ++ rest) = some (l, rest) := by
  subst h
  unfold readN
  rw [if_pos (by simp), List.take_left, List.drop_left]

theorem length_of_readN {n : Nat} {s l r : List β} (h : readN n s = some (l, r)) :
    l.length = n := by
  unfold readN at h
  split at h
  · rename_i hn
    cases h
    rw [List.length_take]
    omega
  · cases h

end Codec
