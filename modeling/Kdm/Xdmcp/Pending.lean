import Kdm.Xdmcp.Chooser

/-!
# The table of pending choices

`disposeIndirectHosts` looks at the head of the list only, so the list has to be in the order of
its timeouts.  The clock does not go back and `choiceTimeout` is the same for all records, so
this comes down to records being put at the end whenever they are registered or refreshed.

* `Call` — what the log says about a call; `since` — when a client was registered, as long as its
  record is wanted.
* `step` — one call of the functions of `choose.c`, or time that passes.
* `Law` — the table has one record for a client, is ordered, and keeps what it should keep.

Principal result: `law_of_reaches`.
-/

namespace Kdm.Xdmcp.Pending

open Runs

/-- The calls that matter for the contents of the table.  `stored` tells whether memory for the
record was found. -/
inductive Call where
  | registered (k : Client) (time : Int) (stored : Bool)
  | consumed (k : Client)
  deriving DecidableEq

/-- The table, the clock and the calls so far, the newest first. -/
structure Table where
  now : Int
  choices : Choices
  log : List Call

/-- When the client was last registered or refreshed, unless its record was consumed after that or
lost because a registration found no memory. -/
def since (k : Client) : List Call → Option Int
  | [] => none
  | .registered k' time stored :: log =>
    if k' = k then if stored then some time else none else since k log
  | .consumed k' :: log => if k' = k then none else since k log

inductive Event where
  | pass (now : Int)
  | register (k : Client) (malloc : Alloc → Bool) (choice : Option Bytes)
  | ask (k : Client)
  | check (k : Client)
  | dispose

/-- The memory that a registration needs is there. -/
def Stored (choices : Choices) (k : Client) (malloc : Alloc → Bool) (choice : Option Bytes) : Bool :=
  (choices.any (·.isOf k) || malloc .choiceRec && malloc .choiceClient && malloc .choicePort) &&
    (choice.isNone || malloc .choice)

def step (choiceTimeout : Int) : Event → Table → Option Table
  | .pass now, s => if s.now ≤ now then some { s with now } else none
  | .register k malloc choice, s =>
    some { s with
      choices := s.choices.registerIndirectChoice k malloc (s.now + choiceTimeout) choice
      log := .registered k s.now (Stored s.choices k malloc choice) :: s.log }
  | .ask _, s => some s
  | .check k, s =>
    some { s with choices := (s.choices.checkIndirectChoice k).2, log := .consumed k :: s.log }
  | .dispose, s => some { s with choices := s.choices.disposeIndirectHosts s.now }

def Start (s : Table) : Prop := s.choices = [] ∧ s.log = []

/-- What `disposeIndirectHosts` returns; without a record it is `TO_INF`. -/
def disposeResult (choices : Choices) (now : Int) : Option Int :=
  ((choices.disposeIndirectHosts now).head?).map (·.timeout)

/-- **The law of the table**, and of the next call of `disposeIndirectHosts`. -/
structure Law (choiceTimeout : Int) (s : Table) : Prop where
  unique : s.choices.Unique
  ordered : s.choices.Pairwise fun a b => a.timeout ≤ b.timeout
  kept : ∀ k t, (∃ c ∈ s.choices.disposeIndirectHosts s.now, c.key = k ∧ c.timeout = t + choiceTimeout) ↔
    since k s.log = some t ∧ s.now - t < choiceTimeout
  result : disposeResult s.choices s.now = none ∧ s.choices.disposeIndirectHosts s.now = [] ∨
    ∃ t, disposeResult s.choices s.now = some t ∧
      (∃ c ∈ s.choices.disposeIndirectHosts s.now, c.timeout = t) ∧
      ∀ c ∈ s.choices.disposeIndirectHosts s.now, t ≤ c.timeout

/-! ## The operations -/

variable {choices : Choices} {k : Client} {malloc : Alloc → Bool} {timeout now : Int}
  {choice : Option Bytes}

/-- A registration takes the record of the client away and puts one at the end, if it is stored. -/
theorem registerIndirectChoice_eq (choices : Choices) (k : Client) (malloc : Alloc → Bool)
    (timeout : Int) (choice : Option Bytes) :
    (Stored choices k malloc choice = true ∧ ∃ c : ChoiceRec, c.key = k ∧ c.timeout = timeout ∧
      choices.registerIndirectChoice k malloc timeout choice = choices.eraseP (·.isOf k) ++ [c]) ∨
    (Stored choices k malloc choice = false ∧
      choices.registerIndirectChoice k malloc timeout choice = choices.eraseP (·.isOf k)) := by
  unfold Choices.registerIndirectChoice Stored
  dsimp only
  split
  · rename_i c hc
    have hf := List.find?_some hc
    have hkey : c.key = k := ChoiceRec.isOf_iff.mp hf
    have hany : choices.any (·.isOf k) = true :=
      List.any_eq_true.mpr ⟨c, List.mem_of_find?_eq_some hc, hf⟩
    rw [hany]
    cases choice with
    | none => exact .inl ⟨rfl, { c with timeout }, hkey, rfl, rfl⟩
    | some h =>
      cases hm : malloc .choice with
      | true => exact .inl ⟨rfl, { c with choice := some h, timeout }, hkey, rfl, by simp⟩
      | false => exact .inr ⟨rfl, by simp⟩
  · rename_i hnone
    have hno : ∀ c ∈ choices, ¬ c.isOf k = true := List.find?_eq_none.mp hnone
    have hany : choices.any (·.isOf k) = false := List.any_eq_false.mpr hno
    rw [hany, Bool.false_or, List.eraseP_of_forall_not hno]
    cases hrec : malloc .choiceRec && malloc .choiceClient && malloc .choicePort with
    | false => exact .inr ⟨rfl, by simp⟩
    | true =>
      cases choice with
      | none => exact .inl ⟨rfl, ⟨k.addr, k.port, k.connectionType, none, timeout⟩, rfl, rfl, by simp⟩
      | some h =>
        cases hm : malloc .choice with
        | true =>
          exact .inl ⟨rfl, ⟨k.addr, k.port, k.connectionType, some h, timeout⟩, rfl, rfl, by simp⟩
        | false => exact .inr ⟨rfl, by simp⟩

theorem checkIndirectChoice_eq (choices : Choices) (k : Client) :
    (choices.checkIndirectChoice k).2 = choices.eraseP (·.isOf k) := by
  unfold Choices.checkIndirectChoice
  split
  · rename_i hnone
    exact (List.eraseP_of_forall_not (List.find?_eq_none.mp hnone)).symm
  · rfl

/-- In an ordered list everything that has timed out stands in front. -/
theorem mem_disposeIndirectHosts_iff (h : choices.Pairwise fun a b => a.timeout ≤ b.timeout)
    {c : ChoiceRec} :
    c ∈ choices.disposeIndirectHosts now ↔ c ∈ choices ∧ now < c.timeout := by
  constructor
  · intro hc
    refine ⟨(List.dropWhile_sublist _).subset hc, ?_⟩
    unfold Choices.disposeIndirectHosts at hc
    induction choices with
    | nil => cases hc
    | cons a l ih =>
      obtain ⟨ha, hl⟩ := List.pairwise_cons.mp h
      rw [List.dropWhile_cons] at hc
      split at hc
      · exact ih hl hc
      · rename_i hnot
        have hlt : now < a.timeout := by simpa using hnot
        rcases List.mem_cons.mp hc with rfl | hc
        · exact hlt
        · exact lt_of_lt_of_le hlt (ha c hc)
  · exact fun ⟨hc, ht⟩ => Choices.mem_disposeIndirectHosts hc ht

/-! ## The invariant -/

/-- Every record has the timeout of the client's last registration, and no record that is wanted
is missing. -/
structure Inv (choiceTimeout : Int) (s : Table) : Prop where
  unique : s.choices.Unique
  ordered : s.choices.Pairwise fun a b => a.timeout ≤ b.timeout
  recent : ∀ c ∈ s.choices, c.timeout ≤ s.now + choiceTimeout
  logged : ∀ c ∈ s.choices, since c.key s.log = some (c.timeout - choiceTimeout)
  present : ∀ k t, since k s.log = some t → s.now < t + choiceTimeout →
    ∃ c ∈ s.choices, c.key = k

variable {choiceTimeout : Int} {s s' : Table}

/-- The record of one client is taken away, and the log says so. -/
theorem Inv.erase (h : Inv choiceTimeout s) (k : Client) {x : Call}
    (hx : ∀ k', since k' (x :: s.log) = if k = k' then none else since k' s.log) :
    Inv choiceTimeout { s with choices := s.choices.eraseP (·.isOf k), log := x :: s.log } where
  unique := h.unique.sublist List.eraseP_sublist
  ordered := h.ordered.sublist List.eraseP_sublist
  recent c hc := h.recent c (List.eraseP_sublist.subset hc)
  logged c hc := by
    have hne : k ≠ c.key := fun hk => h.unique.eraseP_ne hc hk.symm
    show since c.key (x :: s.log) = _
    rw [hx, if_neg hne]
    exact h.logged c (List.eraseP_sublist.subset hc)
  present k' t hs ht := by
    change since k' (x :: s.log) = some t at hs
    rw [hx] at hs
    split at hs
    · cases hs
    · rename_i hne
      obtain ⟨c, hc, rfl⟩ := h.present k' t hs ht
      exact ⟨c, Choices.mem_eraseP hc (Ne.symm hne), rfl⟩

/-- A record is put at the end. -/
theorem Inv.append {c : ChoiceRec} {l : Choices} (hu : Choices.Unique l)
    (ho : l.Pairwise fun a b => a.timeout ≤ b.timeout)
    (hr : ∀ a ∈ l, a.timeout ≤ s.now + choiceTimeout ∧ a.key ≠ c.key ∧
      since a.key s.log = some (a.timeout - choiceTimeout))
    (hp : ∀ k t, k ≠ c.key → since k s.log = some t → s.now < t + choiceTimeout → ∃ a ∈ l, a.key = k)
    (hc : c.timeout = s.now + choiceTimeout) :
    Inv choiceTimeout { s with choices := l ++ [c], log := .registered c.key s.now true :: s.log } where
  unique := hu.snoc fun a ha => (hr a ha).2.1
  ordered := by
    refine List.pairwise_append.mpr ⟨ho, List.pairwise_singleton _ _, fun a ha b hb => ?_⟩
    rw [List.mem_singleton.mp hb, hc]
    exact (hr a ha).1
  recent a ha := by
    rcases List.mem_append.mp ha with ha | ha
    · exact (hr a ha).1
    · rw [List.mem_singleton.mp ha, hc]
  logged a ha := by
    rcases List.mem_append.mp ha with ha | ha
    · simp only [since, if_neg (Ne.symm (hr a ha).2.1)]
      exact (hr a ha).2.2
    · rw [List.mem_singleton.mp ha]
      simp only [since, if_true, hc]
      congr 1
      omega
  present k t hs ht := by
    by_cases hk : k = c.key
    · exact ⟨c, List.mem_append_right _ List.mem_cons_self, hk.symm⟩
    · simp only [since, if_neg (Ne.symm hk)] at hs
      obtain ⟨a, ha, hak⟩ := hp k t hk hs ht
      exact ⟨a, List.mem_append_left _ ha, hak⟩

theorem Inv.step (h : Inv choiceTimeout s) {e : Event} (hs : step choiceTimeout e s = some s') :
    Inv choiceTimeout s' := by
  cases e with
  | pass now =>
    simp only [Pending.step] at hs
    split at hs
    · rename_i hle
      cases hs
      exact { h with
        recent := fun c hc => by have := h.recent c hc; dsimp only; omega
        present := fun k t hl ht => h.present k t hl (by dsimp only at ht; omega) }
    · cases hs
  | register k malloc choice =>
    cases hs
    rcases registerIndirectChoice_eq s.choices k malloc (s.now + choiceTimeout) choice with
      ⟨hst, c, rfl, ht, he⟩ | ⟨hst, he⟩
    · rw [he, hst]
      refine Inv.append (h.unique.sublist List.eraseP_sublist)
        (h.ordered.sublist List.eraseP_sublist) (fun a ha => ?_) (fun k t hk hl ht => ?_) ht
      · have hm := List.eraseP_sublist.subset ha
        exact ⟨h.recent a hm, h.unique.eraseP_ne ha, h.logged a hm⟩
      · obtain ⟨a, ha, rfl⟩ := h.present k t hl ht
        exact ⟨a, Choices.mem_eraseP ha hk, rfl⟩
    · rw [he, hst]
      exact h.erase k fun k' => rfl
  | ask k => cases hs; exact h
  | check k =>
    cases hs
    rw [checkIndirectChoice_eq]
    exact h.erase k fun k' => rfl
  | dispose =>
    cases hs
    have hsub : (s.choices.disposeIndirectHosts s.now).Sublist s.choices := List.dropWhile_sublist _
    exact {
      unique := h.unique.sublist hsub
      ordered := h.ordered.sublist hsub
      recent := fun c hc => h.recent c (hsub.subset hc)
      logged := fun c hc => h.logged c (hsub.subset hc)
      present := fun k t hl ht => by
        obtain ⟨c, hc, rfl⟩ := h.present k t hl ht
        have hlog := h.logged c hc
        have : t = c.timeout - choiceTimeout := Option.some.inj (hl.symm.trans hlog)
        refine ⟨c, Choices.mem_disposeIndirectHosts hc ?_, rfl⟩
        change s.now < t + choiceTimeout at ht
        omega }

theorem Inv.law (h : Inv choiceTimeout s) : Law choiceTimeout s where
  unique := h.unique
  ordered := h.ordered
  kept k t := by
    constructor
    · rintro ⟨c, hc, rfl, ht⟩
      obtain ⟨hc, hlt⟩ := (mem_disposeIndirectHosts_iff h.ordered).mp hc
      have hlog := h.logged c hc
      rw [hlog]
      exact ⟨by rw [ht]; congr 1; omega, by omega⟩
    · rintro ⟨hl, ht⟩
      obtain ⟨c, hc, rfl⟩ := h.present k t hl (by omega)
      have : t = c.timeout - choiceTimeout := Option.some.inj (hl.symm.trans (h.logged c hc))
      exact ⟨c, (mem_disposeIndirectHosts_iff h.ordered).mpr ⟨hc, by omega⟩, rfl, by omega⟩
  result := by
    unfold disposeResult
    have ho : (s.choices.disposeIndirectHosts s.now).Pairwise fun a b => a.timeout ≤ b.timeout :=
      h.ordered.sublist (List.dropWhile_sublist _)
    cases hd : s.choices.disposeIndirectHosts s.now with
    | nil => exact .inl ⟨rfl, rfl⟩
    | cons c l =>
      rw [hd] at ho
      refine .inr ⟨c.timeout, rfl, ⟨c, List.mem_cons_self, rfl⟩, fun a ha => ?_⟩
      rcases List.mem_cons.mp ha with rfl | ha
      · exact le_refl _
      · exact (List.pairwise_cons.mp ho).1 a ha

/-- **The table of pending choices**: in every run it has one record for a client, in the order of
the timeouts, and `disposeIndirectHosts` leaves the records of the clients that were registered
less than `choiceTimeout` ago and returns the earliest of their timeouts. -/
theorem law_of_reaches (h : Reaches (step choiceTimeout) Start (fun _ _ => True) s) :
    Law choiceTimeout s := by
  refine Inv.law (h.invariant (I := Inv choiceTimeout) (fun s h0 => ?_) fun _ _ _ hi _ hs => hi.step hs)
  have hc := h0.1
  have hl := h0.2
  constructor
  · rw [hc]; exact List.nodup_nil
  · rw [hc]; exact List.Pairwise.nil
  · rw [hc]; exact fun c hc => by cases hc
  · rw [hc]; exact fun c hc => by cases hc
  · rw [hl]; exact fun k t h _ => by cases h

namespace Sample

def client : Client := ⟨[10, 0, 0, 1], [2, 0], 0⟩

/-- A client is registered, and then the copy of its choice fails. -/
def calls : List Event :=
  [.register client (fun _ => true) none, .register client (fun a => a != .choice) (some [10, 0, 0, 2])]

end Sample

theorem reaches_exec (es : List Event)
    (h : exec (step choiceTimeout) (fun _ _ => true) es ⟨0, [], []⟩ = some s) :
    Reaches (step choiceTimeout) Start (fun _ _ => True) s :=
  Reaches.exec (fun _ _ _ => trivial) ⟨[], .start ⟨rfl, rfl⟩⟩ h

/-- The record of a client that was registered a moment ago is gone, though nobody took it. -/
theorem not_pending : ∃ s : Table, Reaches (step 15) Start (fun _ _ => True) s ∧
    Call.registered Sample.client s.now true ∈ s.log ∧ (∀ k, Call.consumed k ∉ s.log) ∧
      s.choices = [] := by
  refine ⟨_, reaches_exec Sample.calls rfl, ?_⟩
  refine ⟨?_, fun k hk => ?_, rfl⟩
  · decide
  · simp at hk

theorem law_of_calls : ∃ s : Table, s.log.length = 2 ∧ Law 15 s := by
  obtain ⟨s, hs⟩ : ∃ s, exec (step 15) (fun _ _ => true) Sample.calls ⟨0, [], []⟩ = some s := ⟨_, rfl⟩
  refine ⟨s, ?_, law_of_reaches (reaches_exec _ hs)⟩
  cases hs
  rfl

end Kdm.Xdmcp.Pending
