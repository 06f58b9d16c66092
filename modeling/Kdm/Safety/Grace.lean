import Kdm.Backend.MainLoop

/-!
# The login grace period

Console mode over whole runs: `checkUtmp` wakes the displays when nobody logs in on a console for
`TIME_LOG` seconds.  The record that it looks at comes from `malloc`, and is filled when utmp was
modified since it was read last, which can have been in an earlier episode of console mode.

* `Episode` — what happened since `switchToTTY`, whatever the daemon made of it.
* `Poll` — a call of `checkUtmp` and what came of it; `Graceful` is what should come of it.
* `fresh` — the record is filled from utmp as it is, or will be.
* `step` — a call of the functions of `dm.c`, or anything else in the daemon and around it.

Principal results: `graceful_of_reaches`, and `graceful_switch_iff` for the first call.
-/

namespace Kdm.Grace

open Runs

/-- Somebody is logged in on a console. -/
def loggedIn (consoleTTYs : List String) (entries : List UtEntry) : Bool :=
  entries.any fun ut => decide (ut.line ∈ consoleTTYs) && ut.userProcess

/-- There is an entry for a console. -/
def listed (consoleTTYs : List String) (entries : List UtEntry) : Bool :=
  entries.any fun ut => decide (ut.line ∈ consoleTTYs)

/-- Somebody is logged in on a console now. -/
def occupied (s : State) : Bool :=
  match s.env.utmp with
  | none => false
  | some (_, entries) => loggedIn s.conf.consoleTTYs entries

/-- An episode of console mode: when it began, whether somebody was logged in during it, and the
consoles and the entries that the record was filled from, if it was. -/
structure Episode where
  since : Int
  seen : Bool
  scanned : Option (List String × List UtEntry)
  deriving DecidableEq

structure Poll where
  now : Int
  since : Int
  seen : Bool
  occupied : Bool
  woke : Bool
  deriving DecidableEq

/-- **The property** of a call: nobody is logged in when it wakes the displays, and if nobody was
since the episode began, the grace period is over. -/
def Poll.Graceful (p : Poll) : Prop :=
  p.woke = true → p.occupied = false ∧ (p.seen = false → p.since + TIME_LOG ≤ p.now)

/-- The daemon, the episode, and the calls of `checkUtmp` in console mode so far. -/
structure Console where
  daemon : State
  episode : Episode
  polls : List Poll

/-- What the record is filled from after a call that finds these entries. -/
def rescanned (s : State) (scanned : Option (List String × List UtEntry)) (mtime : Int)
    (entries : List UtEntry) : Option (List String × List UtEntry) :=
  if s.modtim ≠ mtime then some (s.conf.consoleTTYs, entries) else scanned

def Console.poll (c : Console) : Console :=
  match c.daemon.utmpList with
  | none => { c with daemon := checkUtmp c.daemon }
  | some _ =>
    let s := checkUtmp c.daemon
    { daemon := s
      episode := { c.episode with
        scanned :=
          match c.daemon.env.utmp with
          | none => c.episode.scanned
          | some (mtime, entries) =>
            rescanned c.daemon c.episode.scanned mtime entries }
      polls := ⟨c.daemon.now, c.episode.since, c.episode.seen, occupied c.daemon,
        s.utmpList.isNone⟩ :: c.polls }

/-- The record that `switchToTTY` makes, when memory held `x`. -/
def Console.enter (c : Console) (s : State) (x : Int) : Console :=
  { daemon := { s with utmpList := some ⟨s.now, staleUtState x, false⟩ }
    episode := ⟨s.now, occupied s, none⟩
    polls := c.polls }

def Console.switch (c : Console) : Console :=
  let (ok, s) := c.daemon.malloc
  if ok then
    let (x, s) := s.answer
    (c.enter s x).poll
  else { c with daemon := wakeDisplays s }

inductive Event where
  /-- utmp is written, time passes, displays come and go -/
  | other (s : State)
  | wakeDisplays
  | switchToTTY
  | checkUtmp

/-- The two variables of `dm.c` are written by these functions only, and the clock of the daemon
starts at 10000. -/
def step : Event → Console → Option Console
  | .other s, c =>
    if s.utmpList = c.daemon.utmpList ∧ s.modtim = c.daemon.modtim ∧ 10000 ≤ s.now then
      some { c with
        daemon := s
        episode := { c.episode with seen := c.episode.seen || occupied s } }
    else none
  | .wakeDisplays, c => some { c with daemon := wakeDisplays c.daemon }
  | .switchToTTY, c => some c.switch
  | .checkUtmp, c => some c.poll

def Start (c : Console) : Prop :=
  c.daemon.utmpList = none ∧ 10000 ≤ c.daemon.now ∧ c.polls = []

/-- utmp has an entry for a console, and when it was not modified since it was read, then it was
read for the record, as it is. -/
def fresh (s : State) (scanned : Option (List String × List UtEntry)) : Bool :=
  match s.env.utmp with
  | none => false
  | some (mtime, entries) => listed s.conf.consoleTTYs entries &&
    (s.modtim != mtime || scanned == some (s.conf.consoleTTYs, entries))

/-- The displays may be woken. -/
def late (c : Console) : Bool :=
  !occupied c.daemon && (c.episode.seen || decide (c.episode.since + TIME_LOG ≤ c.daemon.now))

/-- **The condition**: the record is that of utmp when it matters. -/
def Sound (c : Console) : Event → Prop
  | .switchToTTY => c.daemon.malloc.1 = true → fresh c.daemon none = true
  | .checkUtmp => late c = true ∨ fresh c.daemon c.episode.scanned = true
  | _ => True

instance sound_decidable (c : Console) : ∀ e, Decidable (Sound c e)
  | .switchToTTY => inferInstanceAs (Decidable (_ → _))
  | .checkUtmp => inferInstanceAs (Decidable (_ ∨ _))
  | .wakeDisplays | .other _ => inferInstanceAs (Decidable True)

theorem switch_daemon (c : Console) : c.switch.daemon = switchToTTY c.daemon := by
  have hpoll : ∀ c : Console, c.poll.daemon = checkUtmp c.daemon := by
    intro c
    unfold Console.poll
    split
    · rfl
    · rfl
  unfold Console.switch switchToTTY
  dsimp only
  split
  · exact hpoll _
  · rfl

/-! ## Reading utmp -/

variable {c : Console} {s : State} {utp : Utmps} {ttys : List String} {es : List UtEntry}

theorem loggedIn_cons (ttys : List String) (ut : UtEntry) (es : List UtEntry) :
    loggedIn ttys (ut :: es) = (decide (ut.line ∈ ttys) && ut.userProcess || loggedIn ttys es) :=
  rfl

theorem listed_cons (ttys : List String) (ut : UtEntry) (es : List UtEntry) :
    listed ttys (ut :: es) = (decide (ut.line ∈ ttys) || listed ttys es) := rfl

/-- What the entries make of the record. -/
structure Noted (ttys : List String) (es : List UtEntry) (utp utp' : Utmps) : Prop where
  time : utp.time ≤ utp'.time
  hadSess : utp'.hadSess = true → utp.hadSess = true ∨ loggedIn ttys es = true
  active : utp'.state = .active ↔ utp.state = .active ∨ loggedIn ttys es = true
  dead : utp'.state = .dead → utp.state = .dead ∧ listed ttys es = false

theorem noted_entry (ttys : List String) (ut : UtEntry) (utp : Utmps) :
    Noted ttys [ut] utp (noteUtmpEntry ttys utp ut) := by
  unfold noteUtmpEntry
  by_cases hl : ut.line ∈ ttys
  · rw [if_pos hl]
    by_cases hu : ut.userProcess = true
    · rw [if_pos hu]
      have hin : loggedIn ttys [ut] = true := by simp [loggedIn, hl, hu]
      exact ⟨Int.le_max_left _ _, fun _ => .inr hin, iff_of_true rfl (.inr hin), nofun⟩
    · rw [if_neg hu]
      have hin : loggedIn ttys [ut] = false := by simp [loggedIn, hu]
      by_cases ha : utp.state = .active
      · rw [if_pos ha]
        exact ⟨Int.le_refl _, .inl, iff_of_true ha (.inl ha), fun h => by rw [ha] at h; cases h⟩
      · rw [if_neg ha]
        refine ⟨Int.le_max_left _ _, .inl, iff_of_false nofun ?_, nofun⟩
        rw [hin]
        exact fun h => h.elim ha fun h => by cases h
  · rw [if_neg hl]
    have hin : loggedIn ttys [ut] = false := by simp [loggedIn, hl]
    have hls : listed ttys [ut] = false := by simp [listed, hl]
    refine ⟨Int.le_refl _, .inl, (or_iff_left ?_).symm, fun h => ⟨h, hls⟩⟩
    rw [hin]
    exact Bool.false_ne_true

theorem noted_entries (ttys : List String) (es : List UtEntry) (utp : Utmps) :
    Noted ttys es utp (es.foldl (noteUtmpEntry ttys) utp) := by
  induction es generalizing utp with
  | nil =>
    refine ⟨Int.le_refl _, .inl, (or_iff_left ?_).symm, fun h => ⟨h, rfl⟩⟩
    exact Bool.false_ne_true
  | cons ut es ih =>
    have h1 := noted_entry ttys ut utp
    have h2 := ih (noteUtmpEntry ttys utp ut)
    have hin : loggedIn ttys (ut :: es) = true ↔
        loggedIn ttys [ut] = true ∨ loggedIn ttys es = true := by
      rw [loggedIn_cons, loggedIn_cons, Bool.or_eq_true, Bool.or_eq_true]
      exact or_congr_left (or_iff_left Bool.false_ne_true).symm
    rw [List.foldl_cons]
    refine ⟨Int.le_trans h1.time h2.time, fun h => ?_, ?_, fun h => ?_⟩
    · rw [hin, ← or_assoc]
      exact (h2.hadSess h).imp h1.hadSess id
    · rw [h2.active, h1.active, hin, or_assoc]
    · obtain ⟨hd, hes⟩ := h2.dead h
      obtain ⟨hd', hut⟩ := h1.dead hd
      refine ⟨hd', ?_⟩
      rw [listed_cons, Bool.or_eq_false_iff] at hut ⊢
      exact ⟨hut.1, hes⟩

theorem noted_unlisted (utp : Utmps) (h : listed ttys es = false) :
    es.foldl (noteUtmpEntry ttys) utp = utp := by
  induction es with
  | nil => rfl
  | cons ut es ih =>
    rw [listed_cons, Bool.or_eq_false_iff, decide_eq_false_iff_not] at h
    rw [List.foldl_cons, noteUtmpEntry, if_neg h.1]
    exact ih h.2

/-! ## The decision -/

theorem forEachDisplay_keeps {β : Type*} {f : State → β} {g : Id → State → State}
    (hg : ∀ i s, f (g i s) = f s) (s : State) : f (forEachDisplay g s) = f s := by
  unfold forEachDisplay
  induction s.displays.map Display.id generalizing s with
  | nil => rfl
  | cons i ids ih => exact (ih (g i s)).trans (hg i s)

theorem wakeDisplays_now (s : State) : (wakeDisplays s).now = s.now := by
  refine forEachDisplay_keeps (f := State.now) (fun i s => ?_) s
  unfold wakeDisplay State.withDisplay
  split
  · dsimp only
    split
    · rfl
    · rfl
  · rfl

def ends (utp : Utmps) : Int := utp.time + if utp.hadSess then TIME_RELOG else TIME_LOG

/-- The displays are woken, or the record stays. -/
theorem pollUtmp_cases (utp : Utmps) (hnow : 10000 ≤ s.now) :
    utp.state ≠ .active ∧ (utp.state = .dead ∨ ends utp ≤ s.now) ∧
        pollUtmp utp s = wakeDisplays s ∨
      utp.state ≠ .dead ∧ ∃ utmpTimeout,
        pollUtmp utp s = { s with utmpList := some utp, utmpTimeout } := by
  obtain ⟨time, state, hadSess⟩ := utp
  cases state with
  | active => exact .inr ⟨nofun, _, rfl⟩
  | wait =>
    by_cases hend : ends ⟨time, .wait, hadSess⟩ ≤ s.now
    · exact .inl ⟨nofun, .inr hend, if_pos hend⟩
    · exact .inr ⟨nofun, _, if_neg hend⟩
  | dead =>
    have hend : ends ⟨0, .dead, hadSess⟩ ≤ s.now := by
      unfold ends TIME_RELOG TIME_LOG
      dsimp only
      split <;> omega
    exact .inl ⟨nofun, .inl rfl, if_pos hend⟩

/-- The record after utmp was read, if it is. -/
def refill (s : State) (utp : Utmps) (mtime : Int) (entries : List UtEntry) : Utmps :=
  if s.modtim ≠ mtime then
    entries.foldl (noteUtmpEntry s.conf.consoleTTYs) { utp with state := .dead }
  else utp

theorem checkUtmp_some {mtime : Int} (hu : s.utmpList = some utp)
    (hf : s.env.utmp = some (mtime, es)) :
    checkUtmp s = pollUtmp (refill s utp mtime es) { s with modtim := mtime } := by
  unfold checkUtmp refill
  split
  · rename_i hnone
    rw [hu] at hnone
    cases hnone
  · rename_i utp' hu'
    cases hu.symm.trans hu'
    rw [hf]
    dsimp only
    by_cases hm : s.modtim = mtime
    · subst hm
      rw [if_neg (not_not_intro rfl), if_neg (not_not_intro rfl)]
    · rw [if_pos hm, if_pos hm]

theorem checkUtmp_missing (hu : s.utmpList = some utp) (hf : s.env.utmp = none) :
    checkUtmp s = wakeDisplays s := by
  unfold checkUtmp
  rw [hu, hf]

/-! ## The record -/

/-- What the record has to do with the episode. -/
structure Follows (e : Episode) (utp : Utmps) : Prop where
  since : e.since ≤ utp.time
  seen : utp.hadSess = true → e.seen = true
  scanned : ∀ ttys es, e.scanned = some (ttys, es) →
    (utp.state = .active ↔ loggedIn ttys es = true) ∧ (utp.state = .dead → listed ttys es = false)

theorem Follows.refill {e : Episode} {mtime : Int} (h : Follows e utp)
    (hf : s.env.utmp = some (mtime, es)) (hseen : occupied s = true → e.seen = true) :
    Follows { e with scanned := rescanned s e.scanned mtime es } (refill s utp mtime es) := by
  unfold Grace.refill rescanned
  by_cases hm : s.modtim = mtime
  · rw [if_neg (not_not_intro hm), if_neg (not_not_intro hm)]
    exact h
  · rw [if_pos hm, if_pos hm]
    have hn := noted_entries s.conf.consoleTTYs es { utp with state := .dead }
    refine ⟨Int.le_trans h.since hn.time, fun hh => ?_, fun ttys es' he => ?_⟩
    · rcases hn.hadSess hh with hold | hin
      · exact h.seen hold
      · refine hseen ?_
        unfold occupied
        rw [hf]
        exact hin
    · cases he
      refine ⟨hn.active.trans (or_iff_right fun h => by cases h), fun hd => (hn.dead hd).2⟩

/-- **A call on a record that follows the episode** is graceful, and so is what it leaves. -/
theorem poll_some {e : Episode} (hu : s.utmpList = some utp)
    (h : Follows e utp) (hseen : occupied s = true → e.seen = true) (hnow : 10000 ≤ s.now)
    (hs : late ⟨s, e, []⟩ = true ∨ fresh s e.scanned = true) :
    Poll.Graceful ⟨s.now, e.since, e.seen, occupied s, (checkUtmp s).utmpList.isNone⟩ := by
  intro hwoke
  rcases hs with hl | hfr
  · obtain ⟨hocc, hor⟩ := Bool.and_eq_true_iff.mp hl
    rw [Bool.not_eq_true'] at hocc
    refine ⟨hocc, fun hns => ?_⟩
    rw [show e.seen = false from hns, Bool.false_or, decide_eq_true_iff] at hor
    exact hor
  · unfold fresh at hfr
    cases hf : s.env.utmp with
    | none =>
      rw [hf] at hfr
      cases hfr
    | some f =>
      obtain ⟨mtime, es⟩ := f
      rw [hf] at hfr
      obtain ⟨hlisted, hor⟩ := Bool.and_eq_true_iff.mp hfr
      have hfol := h.refill hf hseen
      have hscan : rescanned s e.scanned mtime es = some (s.conf.consoleTTYs, es) := by
        unfold rescanned
        split
        · rfl
        · rename_i hm
          simpa [not_not.mp hm] using hor
      obtain ⟨hactive, hdead⟩ := hfol.scanned _ _ hscan
      rw [checkUtmp_some hu hf] at hwoke
      rcases pollUtmp_cases (s := { s with modtim := mtime }) (refill s utp mtime es) hnow with
        ⟨hna, hend, _⟩ | ⟨_, t, heq⟩
      · have hout : loggedIn s.conf.consoleTTYs es = false :=
          Bool.eq_false_iff.mpr fun hin => hna (hactive.mpr hin)
        refine ⟨?_, fun hns => ?_⟩
        · show occupied s = false
          unfold occupied
          rw [hf]
          exact hout
        · have hhad : (refill s utp mtime es).hadSess = false :=
            Bool.eq_false_iff.mpr fun hh => by
              have := hfol.seen hh
              rw [show e.seen = false from hns] at this
              cases this
          rcases hend with hd | hend
          · rw [hdead hd] at hlisted
            cases hlisted
          · rw [ends, hhad, if_neg Bool.false_ne_true] at hend
            have := hfol.since
            exact Int.le_trans (Int.add_le_add_right this _) hend
      · rw [heq] at hwoke
        cases hwoke

/-- The displays are woken, or the record is filled and stays. -/
theorem checkUtmp_cases (hu : s.utmpList = some utp) (hnow : 10000 ≤ s.now) :
    (∃ s' : State, s'.now = s.now ∧ checkUtmp s = wakeDisplays s') ∨
      ∃ mtime es utmpTimeout, s.env.utmp = some (mtime, es) ∧ checkUtmp s =
        { s with modtim := mtime, utmpList := some (refill s utp mtime es), utmpTimeout } := by
  cases hf : s.env.utmp with
  | none => exact .inl ⟨s, rfl, checkUtmp_missing hu hf⟩
  | some f =>
    obtain ⟨mtime, es⟩ := f
    rw [checkUtmp_some hu hf]
    rcases pollUtmp_cases (s := { s with modtim := mtime }) (refill s utp mtime es) hnow with
      ⟨_, _, heq⟩ | ⟨_, t, heq⟩
    · exact .inl ⟨{ s with modtim := mtime }, rfl, heq⟩
    · exact .inr ⟨mtime, es, t, rfl, heq⟩

/-- The record that `switchToTTY` makes follows the episode that begins. -/
theorem follows_enter (s : State) (x : Int) :
    Follows ⟨s.now, occupied s, none⟩ ⟨s.now, staleUtState x, false⟩ :=
  ⟨Int.le_refl _, nofun, nofun⟩

/-! ## Runs -/

/-- **The invariant**, with no condition on utmp. -/
structure Inv (c : Console) : Prop where
  clock : 10000 ≤ c.daemon.now
  record : ∀ utp, c.daemon.utmpList = some utp →
    Follows c.episode utp ∧ (occupied c.daemon = true → c.episode.seen = true)
  polls : ∀ p ∈ c.polls, p.Graceful

namespace Inv

theorem poll (h : Inv c)
    (hs : late c = true ∨ fresh c.daemon c.episode.scanned = true) : Inv c.poll := by
  unfold Console.poll
  cases hu : c.daemon.utmpList with
  | none =>
    have hsame : checkUtmp c.daemon = c.daemon := by
      unfold checkUtmp
      rw [hu]
    dsimp only
    rw [hsame]
    exact h
  | some utp =>
    obtain ⟨hfol, hseen⟩ := h.record utp hu
    refine ⟨?_, fun utp' hu' => ?_, List.forall_mem_cons.mpr
      ⟨poll_some hu hfol hseen h.clock hs, h.polls⟩⟩
    · dsimp only
      rcases checkUtmp_cases hu h.clock with ⟨s', hn, heq⟩ | ⟨mtime, es, t, hf, heq⟩
      · rw [heq, wakeDisplays_now, hn]
        exact h.clock
      · rw [heq]
        exact h.clock
    · dsimp only at hu' ⊢
      rcases checkUtmp_cases hu h.clock with ⟨s', hn, heq⟩ | ⟨mtime, es, t, hf, heq⟩
      · rw [heq] at hu'
        cases hu'
      · rw [heq] at hu' ⊢
        rw [hf]
        cases hu'
        exact ⟨hfol.refill hf hseen, hseen⟩

theorem answer_now (s : State) : s.answer.2.now = s.now := by
  unfold State.answer
  split
  · rfl
  · rfl

theorem answer_fresh (s : State) (scanned : Option (List String × List UtEntry)) :
    fresh s.answer.2 scanned = fresh s scanned := by
  unfold State.answer
  split
  · rfl
  · rfl

theorem enter (h : Inv c) (hnow : 10000 ≤ s.now) (x : Int) : Inv (c.enter s x) where
  clock := hnow
  record := by
    intro utp hu
    cases hu
    exact ⟨follows_enter s x, id⟩
  polls := h.polls

theorem switch (h : Inv c) (hs : c.daemon.malloc.1 = true → fresh c.daemon none = true) :
    Inv c.switch := by
  have hnow : 10000 ≤ c.daemon.malloc.2.now := (answer_now c.daemon).symm ▸ h.clock
  unfold Console.switch
  dsimp only
  split
  · rename_i hok
    refine (h.enter ((answer_now _).symm ▸ hnow) _).poll (.inr ?_)
    refine Eq.trans (answer_fresh _ none) (Eq.trans (answer_fresh c.daemon none) ?_)
    exact hs hok
  · exact ⟨(wakeDisplays_now _).symm ▸ hnow, nofun, h.polls⟩

theorem other (h : Inv c) (hu : s.utmpList = c.daemon.utmpList) (hnow : 10000 ≤ s.now) :
    Inv { c with
      daemon := s, episode := { c.episode with seen := c.episode.seen || occupied s } } where
  clock := hnow
  record := by
    intro utp hs
    obtain ⟨hfol, _⟩ := h.record utp (hu.symm.trans hs)
    refine ⟨⟨hfol.since, fun hh => ?_, hfol.scanned⟩, fun hocc => ?_⟩
    · exact Bool.or_eq_true_iff.mpr (.inl (hfol.seen hh))
    · exact Bool.or_eq_true_iff.mpr (.inr hocc)
  polls := h.polls

theorem step {e : Event} {c' : Console} (h : Inv c) (hs : Sound c e)
    (he : Grace.step e c = some c') : Inv c' := by
  cases e with
  | other s =>
    by_cases hen : s.utmpList = c.daemon.utmpList ∧ s.modtim = c.daemon.modtim ∧ 10000 ≤ s.now
    · rw [Grace.step, if_pos hen] at he
      cases he
      exact h.other hen.1 hen.2.2
    · rw [Grace.step, if_neg hen] at he
      cases he
  | wakeDisplays =>
    cases he
    exact ⟨(wakeDisplays_now _).symm ▸ h.clock, nofun, h.polls⟩
  | switchToTTY =>
    cases he
    exact h.switch hs
  | checkUtmp =>
    cases he
    exact h.poll hs

end Inv

/-- **Console mode lasts** through the grace period, and as long as somebody is logged in, in every
run in which the record is that of utmp when it matters. -/
theorem graceful_of_reaches (h : Reaches step Start Sound c) : ∀ p ∈ c.polls, p.Graceful := by
  have hinv : Inv c := by
    refine h.invariant ?_ fun c e c' hi hs he => hi.step hs he
    rintro c ⟨hu, hnow, hp⟩
    refine ⟨hnow, fun utp hs => ?_, ?_⟩
    · rw [hu] at hs
      cases hs
    · rw [hp]
      exact List.forall_mem_nil _
  exact hinv.polls

/-- **The first call of an episode** is graceful whatever memory held, exactly when utmp has an
entry for a console and was modified since it was read last. -/
theorem graceful_first_iff (hnow : 10000 ≤ s.now) :
    (∀ x, ∀ p ∈ (c.enter s x).poll.polls.head?, p.Graceful) ↔ fresh s none = true := by
  have hhead : ∀ x, (c.enter s x).poll.polls.head? = some ⟨s.now, s.now, occupied s, occupied s,
      (checkUtmp (c.enter s x).daemon).utmpList.isNone⟩ := fun x => rfl
  constructor
  · intro h
    refine Classical.byContradiction fun hfr => ?_
    -- with 0 in memory the displays are woken at once
    have hwoke : (checkUtmp (c.enter s 0).daemon).utmpList = none := by
      cases hf : s.env.utmp with
      | none => rw [checkUtmp_missing (s := (c.enter s 0).daemon) rfl hf, wakeDisplays]
      | some f =>
        obtain ⟨mtime, es⟩ := f
        have hdead : (refill s ⟨s.now, staleUtState 0, false⟩ mtime es).state = .dead := by
          unfold refill
          by_cases hm : s.modtim = mtime
          · rw [if_neg (not_not_intro hm)]
            rfl
          · have hun : listed s.conf.consoleTTYs es = false :=
              Bool.eq_false_iff.mpr fun hl => hfr (by simp [fresh, hf, hl, hm])
            rw [if_pos hm, noted_unlisted _ hun]
        rw [checkUtmp_some (s := (c.enter s 0).daemon) rfl hf]
        rcases pollUtmp_cases (s := { (c.enter s 0).daemon with modtim := mtime })
          (refill s ⟨s.now, staleUtState 0, false⟩ mtime es) hnow with ⟨_, _, heq⟩ | ⟨hnd, _⟩
        · exact congrArg State.utmpList heq
        · exact absurd hdead hnd
    obtain ⟨hocc, hlate⟩ := h 0 _ (hhead 0) (by rw [hwoke]; rfl)
    have := hlate hocc
    unfold TIME_LOG at this
    dsimp only at this
    omega
  · intro hfr x p hp
    rw [hhead] at hp
    cases hp
    exact poll_some (s := (c.enter s x).daemon) rfl (follows_enter s x) id hnow (.inr hfr)

namespace Sample

/-- A getty waits on the only console. -/
def atTime (now modtim : Int) (utmpList : Option Utmps) : State :=
  { State.blank with
    now, modtim, utmpList
    conf := { State.blank.conf with consoleTTYs := ["tty1"] }
    env := { utmp := some (5, [⟨"tty1", "", "LOGIN", false, 9000, true, none⟩]), sys := [1, 0] } }

/-- The console is left alone for 50 seconds. -/
def idle : List Event :=
  [.switchToTTY, .other (atTime 10050 5 (some ⟨10000, .wait, false⟩)), .checkUtmp]

/-- Then console mode is entered again. -/
def again : List Event := idle ++ [.other (atTime 10060 5 none), .switchToTTY]

def start : Console := ⟨atTime 10000 0 none, ⟨0, false, none⟩, []⟩

theorem start_start : Start start := ⟨rfl, by decide, rfl⟩

end Sample

theorem graceful_idle : ∃ c : Console, c.polls.length = 2 ∧ ∀ p ∈ c.polls, p.Graceful := by
  obtain ⟨c, hc⟩ : ∃ c,
      exec step (fun c e => decide (Sound c e)) Sample.idle Sample.start = some c := ⟨_, rfl⟩
  refine ⟨c, ?_, graceful_of_reaches (Reaches.exec (fun _ _ => of_decide_eq_true)
    ⟨[], .start Sample.start_start⟩ hc)⟩
  cases hc
  rfl

/-- utmp has not changed since the last episode, and memory held 0. -/
theorem not_graceful : ¬ ∀ c : Console, Reaches step Start (fun _ _ => True) c →
    ∀ p ∈ c.polls, p.Graceful := by
  intro h
  obtain ⟨c, hc⟩ : ∃ c, exec step (fun _ _ => true) Sample.again Sample.start = some c := ⟨_, rfl⟩
  have hp := h c (Reaches.exec (fun _ _ _ => trivial) ⟨[], .start Sample.start_start⟩ hc)
  cases hc
  have hend := (hp ⟨10060, 10060, false, false, true⟩ (by decide) rfl).2 rfl
  exact absurd hend (by decide)

end Kdm.Grace
