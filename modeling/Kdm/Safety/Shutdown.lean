import Kdm.Safety.Mask

/-!
# A broken off `G_Shutdown` message

`processGPipe` writes to the global shutdown record while it receives.  The integers of a
message that is broken off are in the record already (`gShutdown_broken`), so the record is what
it was only if they repeat it (`gShutdown_kept_iff`).
-/

namespace Kdm

open Abort Talk

variable {s : State} {i : Id} {r : SdRec} {rx : List UInt8}

/-! ## Functions that leave the record alone -/

theorem withDisplay_sdRec {g : Display → State → State} (h : ∀ d s, (g d s).sdRec = s.sdRec)
    (i : Id) (s : State) : (s.withDisplay i g).sdRec = s.sdRec := by
  unfold State.withDisplay
  split
  · exact h _ s
  · rfl

theorem gClosen_sdRec (w : Pipe) (i : Id) (s : State) : (gClosen w i s).sdRec = s.sdRec := by
  refine withDisplay_sdRec (fun d s => ?_) i s
  split <;> rfl

theorem abortStartServer_sdRec (i : Id) (s : State) : (abortStartServer i s).sdRec = s.sdRec := by
  unfold abortStartServer
  split
  · refine withDisplay_sdRec (fun d s => ?_) i s
    split <;> rfl
  · rfl

theorem stopDisplay_sdRec (i : Id) (s : State) : (stopDisplay i s).sdRec = s.sdRec := by
  refine Eq.trans (withDisplay_sdRec (fun d s => ?_) i _) (abortStartServer_sdRec i s)
  dsimp only
  split <;> rfl

/-! ## Receiving the record -/

/-- The fields of the record in the order of the message. -/
def shutdownFields : List (Int → SdRec → SdRec) :=
  [fun v r => { r with how := bits2 v }, fun v r => { r with start := v, given := v },
    fun v r => { r with timeout := v }, fun v r => { r with force := bits2 v },
    fun v r => { r with uid := v }]

/-- The record after the integers in `rx` were written to it. -/
def overwrite : List (Int → SdRec → SdRec) → List UInt8 → SdRec → SdRec
  | [], _, r => r
  | f :: fs, rx, r =>
    if 4 ≤ rx.length then overwrite fs (rx.drop 4) (f (int32 (rx.take 4)) r) else r

/-- Receiving some fields. -/
def receiveFields (i : Id) : List (Int → SdRec → SdRec) → Talk Unit
  | [] => return ()
  | f :: fs => do
    let v ← gRecvInt .gpipe i
    updateSd (f v)
    receiveFields i fs

/-- The option string behind the integers. -/
def receiveOption (i : Id) : Talk Unit := do
  let option ← gRecvStr .gpipe i
  let s ← get
  updateSd fun r => { r with osname := (setBootOption option s).2 }

theorem greeterCommand_shutdown (i : Id) :
    greeterCommand i G_Shutdown = (do receiveFields i shutdownFields; receiveOption i) := by
  unfold greeterCommand
  rw [if_neg (by decide), if_pos rfl]
  simp only [receiveFields, shutdownFields, receiveOption, bind_assoc, pure_bind]

theorem gRecvInt_spec {Q : Int → State → Prop} {E : Unit → State → Prop}
    (hQ : 4 ≤ s.env.rx.length →
      Q (int32 (s.env.rx.take 4)) (s.withEnv { s.env with rx := s.env.rx.drop 4 }))
    (hE : ¬ 4 ≤ s.env.rx.length → E () (gClosen .gpipe i (s.withEnv { s.env with rx := [] }))) :
    Ends (gRecvInt .gpipe i) s Q E := by
  refine Ends.bind ?_
  unfold Ends Talk.gRead
  by_cases h : 4 ≤ s.env.rx.length
  · simp only [if_pos h]; exact hQ h
  · simp only [if_neg h]; exact hE h

/-- **What receiving leaves behind**, whether it is broken off or not. -/
theorem receiveFields_ends (fs : List (Int → SdRec → SdRec)) (s : State) :
    Ends (receiveFields i fs) s
      (fun _ s' => 4 * fs.length ≤ s.env.rx.length ∧ s'.sdRec = overwrite fs s.env.rx s.sdRec ∧
        s'.env = { s.env with rx := s.env.rx.drop (4 * fs.length) })
      (fun _ s' => ¬ 4 * fs.length ≤ s.env.rx.length ∧
        s'.sdRec = overwrite fs s.env.rx s.sdRec) := by
  induction fs generalizing s with
  | nil => exact ⟨Nat.zero_le _, rfl, rfl⟩
  | cons f fs ih =>
    rw [List.length_cons, overwrite]
    refine Ends.bind (gRecvInt_spec (fun h => ?_) fun h => ?_)
    · refine Ends.update (Ends.mono (ih _) ?_ ?_)
      · rintro ⟨⟩ s' ⟨hlen, hr, henv⟩
        change 4 * fs.length ≤ (s.env.rx.drop 4).length at hlen
        rw [List.length_drop] at hlen
        have hdrop : (s.env.rx.drop 4).drop (4 * fs.length) = s.env.rx.drop (4 * (fs.length + 1)) := by
          rw [List.drop_drop, Nat.mul_succ, Nat.add_comm]
        exact ⟨by omega, hr.trans (if_pos h).symm, henv.trans (by rw [← hdrop]; rfl)⟩
      · rintro ⟨⟩ s' ⟨hlen, hr⟩
        change ¬ 4 * fs.length ≤ (s.env.rx.drop 4).length at hlen
        rw [List.length_drop] at hlen
        exact ⟨by omega, hr.trans (if_pos h).symm⟩
    · refine ⟨by omega, ?_⟩
      rw [gClosen_sdRec, if_neg h]
      rfl

/-! ## Messages that are broken off -/

/-- All of the message is there, and memory for its string; `s` is the state after the command
word. -/
def MessageSent (s : State) : Prop :=
  24 ≤ s.env.rx.length ∧
    (let n := uint32 ((s.env.rx.drop 20).take 4)
    n = 0 ∨ 0x10000 < n ∨ s.malloc.1 = true ∧ 24 + n ≤ s.env.rx.length)

theorem malloc_rx (s : State) : s.malloc.2.env.rx = s.env.rx := by
  show s.answer.2.env.rx = _
  unfold State.answer
  split <;> rfl

theorem malloc_sdRec (s : State) : s.malloc.2.sdRec = s.sdRec := by
  show s.answer.2.sdRec = _
  unfold State.answer
  split <;> rfl

theorem malloc_congr {s' : State} (h : s'.env.sys = s.env.sys) : s'.malloc.1 = s.malloc.1 := by
  have hx : s'.answer.1 = s.answer.1 := by
    unfold State.answer
    rw [h]
    split <;> rfl
  show decide (s'.answer.1 ≠ 0) = decide (s.answer.1 ≠ 0)
  rw [hx]

theorem gMalloc_spec {Q : Unit → State → Prop} {E : Unit → State → Prop}
    (hQ : s.malloc.1 = true → Q () s.malloc.2)
    (hE : E () (gClosen .gpipe i s.malloc.2)) : Ends (gMalloc .gpipe i) s Q E := by
  unfold Ends Talk.gMalloc
  dsimp only
  by_cases h : s.malloc.1 = true
  · rw [if_pos h]; exact hQ h
  · rw [if_neg h]; exact hE

theorem gRead_spec {n : Nat} {Q : List UInt8 → State → Prop} {E : Unit → State → Prop}
    (hQ : n ≤ s.env.rx.length →
      Q (s.env.rx.take n) (s.withEnv { s.env with rx := s.env.rx.drop n }))
    (hE : ¬ n ≤ s.env.rx.length → E () (gClosen .gpipe i (s.withEnv { s.env with rx := [] }))) :
    Ends (gRead .gpipe i n) s Q E := by
  unfold Ends Talk.gRead
  by_cases h : n ≤ s.env.rx.length
  · simp only [if_pos h]; exact hQ h
  · simp only [if_neg h]; exact hE h

/-- The string is received whole, or the record stays what it was. -/
theorem receiveOption_ends (s : State) :
    Ends (receiveOption i) s
      (fun _ _ => 4 ≤ s.env.rx.length ∧ (uint32 (s.env.rx.take 4) = 0 ∨
        0x10000 < uint32 (s.env.rx.take 4) ∨
          s.malloc.1 = true ∧ 4 + uint32 (s.env.rx.take 4) ≤ s.env.rx.length))
      (fun _ s' => s'.sdRec = s.sdRec) := by
  refine Ends.bind (Ends.bind (Ends.bind (gRead_spec (fun hlen => ?_) fun _ => gClosen_sdRec ..)))
  split
  · rename_i h
    exact ⟨hlen, h.imp_right .inl⟩
  · refine Ends.bind (gMalloc_spec (fun hm => ?_) ?_)
    · replace hm : s.malloc.1 = true := hm ▸ malloc_congr rfl
      refine Ends.bind (gRead_spec (fun hn => ?_) fun _ => ?_)
      · rw [malloc_rx] at hn
        change _ ≤ (s.env.rx.drop 4).length at hn
        rw [List.length_drop] at hn
        exact ⟨hlen, .inr (.inr ⟨hm, by omega⟩)⟩
      · rw [gClosen_sdRec]; exact malloc_sdRec _
    · rw [gClosen_sdRec]; exact malloc_sdRec _

/-- **A broken off message** leaves the integers that were received in the record. -/
theorem gShutdown_broken (h : ¬ MessageSent s) :
    (finishTalk i (greeterCommand i G_Shutdown s)).sdRec =
      overwrite shutdownFields s.env.rx s.sdRec := by
  have hends : Ends (greeterCommand i G_Shutdown) s (fun _ _ => False)
      (fun _ s' => s'.sdRec = overwrite shutdownFields s.env.rx s.sdRec) := by
    rw [greeterCommand_shutdown]
    refine Ends.bind ((receiveFields_ends shutdownFields s).mono ?_ fun _ _ h => h.2)
    rintro ⟨⟩ s' ⟨hlen, hr, henv⟩
    refine (receiveOption_ends s').mono (fun _ _ hsent => h ?_) fun _ _ he => he.trans hr
    have hrx : s'.env.rx = s.env.rx.drop 20 := by rw [henv]; rfl
    have hmalloc : s'.malloc.1 = s.malloc.1 := malloc_congr (by rw [henv])
    rw [hrx, hmalloc, List.length_drop] at hsent
    change 20 ≤ s.env.rx.length at hlen
    refine ⟨by omega, hsent.2.imp_right (Or.imp_right fun hs => ⟨hs.1, by omega⟩)⟩
  unfold finishTalk
  unfold Ends at hends
  split
  · rename_i hm; rw [hm] at hends; exact hends.elim
  · rename_i hm; rw [hm] at hends; rw [stopDisplay_sdRec]; exact hends

/-! ## The record as it was -/

/-- The request in a record; the history variable is left out. -/
def SdRec.request (r : SdRec) : Fin 4 × Int × Int × Fin 4 × Int × Option String :=
  (r.how, r.start, r.timeout, r.force, r.uid, r.osname)

/-- The integers in `rx` are what the record holds. -/
structure Repeats (rx : List UInt8) (r : SdRec) : Prop where
  how : 4 ≤ rx.length → bits2 (int32 (rx.take 4)) = r.how
  start : 8 ≤ rx.length → int32 ((rx.drop 4).take 4) = r.start
  timeout : 12 ≤ rx.length → int32 ((rx.drop 8).take 4) = r.timeout
  force : 16 ≤ rx.length → bits2 (int32 ((rx.drop 12).take 4)) = r.force
  uid : 20 ≤ rx.length → int32 ((rx.drop 16).take 4) = r.uid

theorem overwrite_request_iff :
    (overwrite shutdownFields rx r).request = r.request ↔ Repeats rx r := by
  have hdrop (m n : ℕ) : (rx.drop m).drop n = rx.drop (m + n) := List.drop_drop
  simp only [overwrite, shutdownFields, hdrop, List.length_drop]
  split_ifs with h1 h2 h3 h4 h5
  all_goals
    simp only [SdRec.request, Prod.mk.injEq]
    constructor
    · intro h
      constructor <;> grind
    · intro ⟨how, start, timeout, force, uid⟩
      grind

theorem gRecvCmd_sdRec (s : State) : (gRecvCmd s).2.sdRec = s.sdRec := by
  unfold gRecvCmd
  split <;> rfl

/-- **Atomicity of `G_Shutdown`**: when the message is broken off, the record is what it was if
and only if the integers that were received repeat it. -/
theorem gShutdown_kept_iff (hc : (gRecvCmd s).1 = some G_Shutdown)
    (h : ¬ MessageSent (gRecvCmd s).2) :
    (processGPipe i s).sdRec.request = s.sdRec.request ↔
      Repeats (gRecvCmd s).2.env.rx s.sdRec := by
  have hr := gShutdown_broken (i := i) h
  rw [gRecvCmd_sdRec] at hr
  rw [← overwrite_request_iff, ← hr]
  unfold processGPipe
  rw [show gRecvCmd s = (some G_Shutdown, (gRecvCmd s).2) from Prod.ext hc rfl]

namespace Sample

/-- The greeter sends the command word of `G_Shutdown` and `how`, and dies. -/
def brokenOff (how : UInt8) : Env := { rx := [101, 0, 0, 0, how, 0, 0, 0] }

theorem gRecvCmd_brokenOff (how : UInt8) (s : State) :
    gRecvCmd (s.withEnv (brokenOff how)) = (some G_Shutdown, s.withEnv { rx := [how, 0, 0, 0] }) := by
  have h : int32 [101, 0, 0, 0] = G_Shutdown := by decide
  rw [← h]
  rfl

theorem not_messageSent (how : UInt8) (s : State) : ¬ MessageSent (s.withEnv { rx := [how, 0, 0, 0] }) := by
  intro h
  have hlen : 24 ≤ [how, 0, 0, 0].length := h.1
  simp at hlen

end Sample

/-- A greeter that dies in its message leaves a shutdown behind that nobody asked for. -/
theorem not_gShutdown_kept : ∃ s, Reachable s ∧
    (gRecvCmd (s.withEnv (Sample.brokenOff 2))).1 = some G_Shutdown ∧
    ¬ MessageSent (gRecvCmd (s.withEnv (Sample.brokenOff 2))).2 ∧
    (processGPipe 0 (s.withEnv (Sample.brokenOff 2))).sdRec.request ≠ s.sdRec.request := by
  obtain ⟨s, hs, hp⟩ := reachable_of_run (C := fun _ _ => True) anyEvent
    (Sample.bootEnv (Sample.dmConf [":0"])) 50 Sample.sessionUp
    (fun s => (step (.gpipe 0 (Sample.brokenOff 2)) s).isSome &&
      decide ((processGPipe 0 (s.withEnv (Sample.brokenOff 2))).sdRec.request ≠ s.sdRec.request))
    (fun _ _ _ => trivial) (by decide)
  rw [Bool.and_eq_true, decide_eq_true_eq] at hp
  refine ⟨s, hs, ?_, ?_, hp.2⟩
  · rw [Sample.gRecvCmd_brokenOff]
  · rw [Sample.gRecvCmd_brokenOff]
    exact Sample.not_messageSent 2 s

/-- A message that repeats the record and is broken off. -/
theorem gShutdown_kept_repeat : ∃ s, (processGPipe 0 s).sdRec.request = s.sdRec.request := by
  obtain ⟨s, hs, hp⟩ := reachable_of_run (C := fun _ _ => True) anyEvent
    (Sample.bootEnv (Sample.dmConf [":0"])) 50 Sample.sessionUp
    (fun s => decide (s.sdRec.how = 0))
    (fun _ _ _ => trivial) (by decide)
  rw [decide_eq_true_eq] at hp
  refine ⟨s.withEnv (Sample.brokenOff 0), (gShutdown_kept_iff ?_ ?_).mpr ?_⟩
  · rw [Sample.gRecvCmd_brokenOff]
  · rw [Sample.gRecvCmd_brokenOff]
    exact Sample.not_messageSent 0 s
  · rw [Sample.gRecvCmd_brokenOff]
    have how : bits2 (int32 [0, 0, 0, 0]) = 0 := by decide
    exact ⟨fun _ => how.trans hp.symm, fun h => (nomatch h), fun h => (nomatch h),
      fun h => (nomatch h), fun h => (nomatch h)⟩

end Kdm
