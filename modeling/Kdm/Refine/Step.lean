import Kdm.Abstract.Settings
import Kdm.Refine.Ctrl

/-!
# The main loop refines the model

`Emits s e` lists the actions that an event `e` of the main loop in state `s` can lead to: the
ordinary ones, and each other kind with the circumstances it arises in.  What a result forbids,
it has to exclude by a condition on these circumstances.

Principal result: `step_refines`, every step of the machine is a path of emitted actions.
-/

namespace Kdm

open Runs

/-- The event makes the daemon rescan its configuration, as it is read from `env`. -/
inductive Rescans (s : State) : Event → Bool → Env → Prop
  | hup {env} : Rescans s (.signal .SIGHUP env) true env
  | reaped {env} : s.stopping = false → s.conf.autoRescan = true → Rescans s (.rescan env) false env
  | expired {env} : s.sdRec.how ≠ 0 → s.sdRec.timeout ≤ s.now → wouldShutdown (s.withEnv env) = false →
      Rescans s (.shutdown env) true env
  | cancelled {x fd line env d args r} : socketOf x s = some d →
      commandWords line = "shutdown" :: args → parseShutdown d args (s.withEnv env) = .ok r →
      Cancels d r s → Rescans s (.command x fd line env) true env

/-- The events during which a start step of an X server may be taken. -/
def Event.startsServer : Event → Bool
  | .kick _ | .timers _ | .child _ _ _ => true
  | _ => false

/-- The session of the display that holds the slot cannot be forked when its server is ready. -/
def ForkFails (i : Id) (d : Display) (s : State) : Prop :=
  (gFork i (openCtrl (some i) (({ s.setServerStatus i .ignore with
    serverTimeout := TO_INF }).log (.startDisplayP2 i d.status)))).1 = -1

/-- **The actions of an event.** -/
inductive Emits (s : State) : Event → Act → Abs → Prop
  | ordinary {e x a} : x.ordinary = true → Emits s e x a
  | timed {e x a} : e.startsServer = true → x.timed = true → SameTimeouts (abs s) a →
      Emits s e x a
  | conf {env i t o a} : Emits s (.loop env) (.conf i t o) a
  | tick {now a} : Emits s (.select now) (.tick now) a
  | reachSd {env a} : Emits s (.shutdown env) .reachSd a
  | expireSd {env a} : Emits s (.shutdown env) .expireSd a
  | stopDue {env a} : a.sd.start = TO_INF → Emits s (.shutdown env) .stopAll a
  | cancelDue {env a} : Emits s (.shutdown env) .cancelSd a
  | stopSignal {sig env a} : sig = .SIGTERM ∨ sig = .SIGINT → a.sd = s.sdRec → a.now = s.now →
      Emits s (.signal sig env) .stopAll a
  | makeReserve {e force env i a} : Rescans s e force env →
      (∀ v, a.disp i = some v → v.serverPid ≠ -1 →
        Blocked s (· ∈ reserveNames force (s.withEnv env))) → Emits s e (.makeReserve i) a
  | restart {pid status env d st a} : findDisplayByPid s pid = some d →
      StartsAgain d (exitArgs d (wcFromWait status)).1 (exitArgs d (wcFromWait status)).2.1 s →
      a.slot = s.startingServer → Emits s (.child pid status env) (.restart d.id st) a
  | raise {x fd line env d i} : socketOf x s = some d → Raises d (commandWords line) s i →
      Emits s (.command x fd line env) (.raise i) (abs s)
  | readyFails {env i d pid a} : s.startingServer = some i → s.find i = some d →
      ForkFails i d (s.withEnv env) → a.slot = some i →
      Emits s (.signal .SIGUSR1 env) (.serverReadyFails i pid) a
  | xconnOk {i env} : (gRecvCmd (s.withEnv env)).1 = some D_XConnOk →
      Emits s (.dpipe i env) (.xconnOk i) (abs s)
  | acceptSd {i env a} : (gRecvCmd (s.withEnv env)).1 = some D_UnUser →
      AcceptsUnUser i (gRecvCmd (s.withEnv env)).2 → Emits s (.dpipe i env) (.acceptSd i) a
  | breakPipe {i env a} : BreaksOff (dpyCommand i) (s.withEnv env) →
      Emits s (.dpipe i env) (.breakPipe i) a
  | breakGPipe {i env a} : BreaksOff (greeterCommand i) (s.withEnv env) →
      Emits s (.gpipe i env) (.breakGPipe i) a
  | greeterSd {i env} {r : SdRec} : (gRecvCmd (s.withEnv env)).1 = some G_Shutdown →
      r.how = bits2 (int32 ((gRecvCmd (s.withEnv env)).2.env.rx.take 4)) →
      r.start = int32 (((gRecvCmd (s.withEnv env)).2.env.rx.drop 4).take 4) → r.given = r.start →
      Emits s (.gpipe i env) (.putSd r) (abs s)
  | brokenSd {i env r} : (gRecvCmd (s.withEnv env)).1 = some G_Shutdown →
      BreaksOff (greeterCommand i) (s.withEnv env) → Emits s (.gpipe i env) (.putSd r) (abs s)
  | console {i env j d v a} : (gRecvCmd (s.withEnv env)).1 = some G_Console →
      s.conf.consoleTTYs ≠ [] → s.find j = some d → d.isLocal = true → a.disp j = some v →
      (v.serverStatus = d.serverStatus ∨ v.serverStatus = .ignore) →
      Emits s (.gpipe i env) (.stop j .none (.textMode true)) a
  | putLocal {x fd line env d args r} : socketOf x s = some (some d) →
      commandWords line = "shutdown" :: args →
      parseShutdown (some d) args (s.withEnv env) = .ok r → r.start = 0 →
      Permits (some d) r.force s →
      Emits s (.command x fd line env) (.putLocalSd d.id { r with uid := d.requestUid }) (abs s)
  | cancelSd {x fd line env d args r} : socketOf x s = some d →
      commandWords line = "shutdown" :: args → parseShutdown d args (s.withEnv env) = .ok r →
      Cancels d r s → Emits s (.command x fd line env) .cancelSd (abs s)
  | putSd {x fd line env d args r} : socketOf x s = some d →
      commandWords line = "shutdown" :: args → parseShutdown d args (s.withEnv env) = .ok r →
      r.how ≠ 0 → Permits d r.force s →
      Emits s (.command x fd line env) (.putSd { r with uid := requesterUid d }) (abs s)

variable {P : Act → Abs → Prop} {s s' : State} {i : Id} {d : Display} {env : Env}

theorem Emits.all_ordinary (s : State) (e : Event) : Ordinary (Emits s e) :=
  fun _ _ hx => .ordinary hx

/-- During an event that starts servers neither the clock nor a display's timeouts change. -/
theorem Emits.not_sets {s : State} {e : Event} {x : Act} {a : Abs} (he : e.startsServer = true)
    (h : Emits s e x a ∨ x.timed = true) : x.sets = false := by
  rcases h with h | h
  · cases h with
    | ordinary hx => cases x <;> first | rfl | exact Bool.noConfusion hx
    | timed _ hx => cases x <;> first | rfl | exact Bool.noConfusion hx
    | conf | tick => exact Bool.noConfusion he
    | _ => rfl
  · cases x <;> first | rfl | exact Bool.noConfusion h

theorem Emits.all_timed {s : State} {e : Event} (he : e.startsServer = true)
    (h : ∀ {P}, Ordinary P → Timed P → (∀ x a, Emits s e x a → P x a) → Steps P (abs s) (abs s')) :
    Steps (Emits s e) (abs s) (abs s') := by
  have h1 := h (P := fun x a => Emits s e x a ∨ x.timed = true) (fun _ _ hx => .inl (.ordinary hx))
    (fun _ _ hx => .inr hx) (fun _ _ hx => .inl hx)
  have h2 := h1.strengthen (I := SameTimeouts (abs s))
    (fun x a b hx hs hab => hab.trans (hs.same_timeouts (Emits.not_sets he hx))) (.refl _)
  refine h2.mono fun x a hx => ?_
  rcases hx with ⟨hx | hx, hab⟩
  · exact hx
  · exact .timed he hx hab

theorem Emits.mayRescan {s : State} {e : Event} {force : Bool} (he : Rescans s e force env) :
    MayRescan (Emits s e) force (s.withEnv env) :=
  fun _ _ ha => .makeReserve he fun v hv hp => ha v hv hp

/-! ## The stretches of the loop -/

theorem loopHead_steps (hP : Ordinary P) (hC : ∀ i t o a, P (.conf i t o) a) :
    Steps P (abs s) (abs (loopHead s)) := by
  unfold loopHead
  split
  · split
    · exact Path.nil _
    · have h1 := (forEachDisplay_steps (P := P) (s := s) (Q := fun _ => True)
        (fun i s _ => ⟨checkDisplayStatus_steps hP hC i s, trivial⟩) trivial).1
      exact h1.trans (Path.of_eq (forEachDisplayRev_unseen abs_allocateVT).symm)
  · exact Path.nil _

theorem kickDisplays_steps (hP : Ordinary P) (hT : Timed P) :
    Steps P (abs s) (abs (kickDisplays s)) := by
  unfold kickDisplays
  split
  · exact Path.nil _
  · exact (forEachDisplay_steps (Q := fun _ => True)
      (fun i s _ => ⟨kickDisplay_steps hP hT i s, trivial⟩) trivial).1

/-- The shutdown block: the record's start time is reached before anything is stopped. -/
theorem checkShutdown_steps (hP : Ordinary P) (hk : Keys (abs s))
    (hR : s.sdRec.how ≠ 0 → s.sdRec.timeout ≤ s.now → wouldShutdown s = false → MayRescan P true s)
    (hreach : ∀ a, P .reachSd a) (hexpire : ∀ a, P .expireSd a) (hcancel : ∀ a, P .cancelSd a)
    (hstop : ∀ a, a.sd.start = TO_INF → P .stopAll a) :
    Steps P (abs s) (abs (checkShutdown s)) := by
  unfold checkShutdown
  split
  · exact Path.nil _
  · rename_i hhow
    split
    · exact Path.nil _
    · rename_i hdue
      have hdue' : s.sdRec.start = TO_INF ∨ s.sdRec.start ≤ s.now := by
        by_cases h : s.sdRec.start = TO_INF
        · exact .inl h
        · right
          by_contra h'
          exact hdue ⟨h, by omega⟩
      let s1 : State := { s with sdRec := { s.sdRec with start := TO_INF } }
      let s2 : State := { s1 with sdRec := { s1.sdRec with timeout := TO_INF } }
      have h1 : Step .reachSd (abs s) (abs s1) := ⟨hhow, hdue', rfl⟩
      have h2 : Step .expireSd (abs s1) (abs s2) := rfl
      have hpath1 : Steps P (abs s) (abs s1) := Path.one _ (hreach _) h1
      have hpath2 : Steps P (abs s) (abs s2) := hpath1.then _ (hexpire _) h2
      dsimp only
      split
      · rename_i hexp
        split
        · exact hpath2.trans (stoppen_steps (s := s2) hP true fun a hsd _ =>
            hstop a (by rw [hsd]))
        · rename_i hw
          have hw' : wouldShutdown s = false := Bool.eq_false_of_not_eq_true hw
          exact hpath2.trans (cancelShutdown_steps (s := s2) hP ((hk.step h1).step h2)
            (hR hhow hexp hw') (hcancel _))
      · exact hpath1.trans (stoppen_steps (s := s1) hP false fun a hsd _ => hstop a (by rw [hsd]))

theorem runTimers_steps (hP : Ordinary P) (hT : Timed P) :
    Steps P (abs s) (abs (runTimers s)) := by
  have h1 : Steps P (abs s) (abs (if s.serverTimeout ≤ s.now then
      startServerTimeout { s with serverTimeout := TO_INF } else s)) := by
    split
    · rename_i hle
      exact startServerTimeout_steps hP hT hle rfl
    · exact Path.nil _
  unfold runTimers
  dsimp only
  generalize (if s.serverTimeout ≤ s.now then startServerTimeout { s with serverTimeout := TO_INF }
    else s) = s1 at h1 ⊢
  split
  · exact h1.trans (checkUtmp_steps hP { s1 with utmpTimeout := TO_INF })
  · exact h1

/-- Marking the displays before a rescan is not seen. -/
theorem markDisplays_unseen (s : State) :
    abs (forEachDisplay markDisplay s) = abs s ∧
      (∀ N, Blocked (forEachDisplay markDisplay s) N → Blocked s N) ∧
      ∀ force, reserveNames force (forEachDisplay markDisplay s) = reserveNames force s := by
  have hmark (i : Id) (s' : State) (N : String → Prop) (h : Blocked (markDisplay i s') N) :
      Blocked s' N := by
    obtain ⟨d', hd', hN, hsp, hst⟩ := h
    obtain ⟨d, hd, rfl⟩ := List.mem_map.mp hd'
    refine ⟨d, hd, ?_⟩
    split at hN
    · rename_i hi
      rw [if_pos hi] at hsp hst
      exact ⟨hN, hsp, hst⟩
    · rename_i hi
      rw [if_neg hi] at hsp hst
      exact ⟨hN, hsp, hst⟩
  unfold forEachDisplay
  generalize s.displays.map Display.id = ids
  induction ids generalizing s with
  | nil => exact ⟨rfl, fun _ h => h, fun _ => rfl⟩
  | cons i ids ih =>
    obtain ⟨h1, h2, h3⟩ := ih (markDisplay i s)
    exact ⟨h1.trans (abs_markDisplay i s), fun N h => hmark i s N (h2 N h), h3⟩

theorem handleSignal_steps (hk : Keys (abs s)) (sig : Signal) (env : Env) :
    Steps (Emits s (.signal sig env)) (abs s) (abs (handleSignal sig (s.withEnv env))) := by
  have hP := Emits.all_ordinary s (.signal sig env)
  have hterm (hsig : sig = .SIGTERM ∨ sig = .SIGINT) : Steps (Emits s (.signal sig env)) (abs s)
      (abs (stoppen true (s.withEnv env))) :=
    stoppen_steps (s := s.withEnv env) hP true fun a hsd hnow => .stopSignal hsig hsd hnow
  cases sig with
  | SIGTERM => exact hterm (.inl rfl)
  | SIGINT => exact hterm (.inr rfl)
  | SIGHUP =>
    obtain ⟨h1, h2, h3⟩ := markDisplays_unseen (s.withEnv env)
    have hR : MayRescan (Emits s (.signal .SIGHUP env)) true
        (forEachDisplay markDisplay (s.withEnv env)) := by
      unfold MayRescan
      rw [h3]
      exact (Emits.mayRescan (e := .signal .SIGHUP env) .hup).mono (h2 _)
    have hk1 : Keys (abs (forEachDisplay markDisplay (s.withEnv env))) := by rw [h1]; exact hk
    have hgo := rescanConfigs_steps hP hk1 hR
    rw [h1] at hgo
    exact hgo
  | SIGCHLD => exact Path.nil _
  | SIGUSR1 =>
    unfold handleSignal
    dsimp only
    split
    · rename_i d hd
      obtain ⟨i, hs, hd⟩ := Option.bind_eq_some_iff.mp hd
      split
      · rename_i hst
        exact startServerSuccess_steps (s := s.withEnv env) hP hs hd hst fun hf pid b hb =>
          .readyFails hs hd hf (hb.trans hs)
      · exact Path.nil _
    · exact Path.nil _

theorem createForeign_steps (hP : Ordinary P) (name fromAddr : String) (displayNumber sessionID : Nat)
    (withAuth : Bool) (s : State) :
    Steps P (abs s) (abs (createForeign name fromAddr displayNumber sessionID withAuth s)) := by
  unfold createForeign
  rcases hm : s.malloc with ⟨ok, s2⟩
  have h2 : abs s2 = abs s := abs_of_malloc hm
  rw [← h2]
  dsimp only
  split
  · exact Path.nil _
  · rcases newDisplay_spec name s2 with ⟨s3, he, h3, -⟩ | ⟨s3, he, h3, -⟩
    · rw [he]; exact Path.of_eq h3.symm
    · rw [he]
      dsimp only
      refine newDisplay_steps hP name (fun d =>
        { d with
          displayType := ⟨.dForeign, .dTransient, .dFromXDMCP⟩
          sessionID := sessionID
          fromAddr := fromAddr
          displayNumber := displayNumber }) h3 rfl (fun _ => rfl) ?_
      split
      · rcases hm' : State.malloc _ with ⟨ok', s4⟩
        have h4 := abs_of_malloc hm'
        dsimp only
        split
        · exact .inl h4
        · rw [abs_removeDisplay, h4]; exact .inr rfl
      · exact .inl rfl

theorem manage_steps (hP : Ordinary P) (name fromAddr : String) (displayNumber sessionID : Nat)
    (withAuth : Bool) (s : State) :
    Steps P (abs s) (abs (manage name fromAddr displayNumber sessionID withAuth s)) := by
  unfold manage
  cases findDisplayByName s name with
  | some d => exact (stopDisplay_steps hP d.id s).trans (createForeign_steps hP _ _ _ _ _ _)
  | none => exact createForeign_steps hP _ _ _ _ _ _

/-- **Refinement**: every step of the main loop is a path of the actions it emits. -/
theorem step_refines (hk : Keys (abs s)) {e : Event} (h : step e s = some s') :
    Steps (Emits s e) (abs s) (abs s') := by
  have hP := Emits.all_ordinary s e
  unfold step at h
  split at h
  · cases h
  · cases e with
    | loop env =>
      dsimp only at h
      split at h
      · cases h
        exact loopHead_steps (s := s.withEnv env) hP fun _ _ _ _ => .conf
      · cases h
    | kick env =>
      dsimp only at h
      split at h
      · cases h
        exact Emits.all_timed rfl fun hP hT _ => kickDisplays_steps (s := s.withEnv env) hP hT
      · cases h
    | shutdown env =>
      dsimp only at h
      split at h
      · cases h
        exact checkShutdown_steps (s := s.withEnv env) hP hk
          (fun h1 h2 h3 => Emits.mayRescan (.expired h1 h2 h3))
          (fun _ => .reachSd) (fun _ => .expireSd) (fun _ => .cancelDue) fun _ ha => .stopDue ha
      · cases h
    | select now =>
      dsimp only at h
      split at h
      · rename_i hc
        cases h
        exact Path.one (.tick now) .tick ⟨hc.2.1, hc.2.2, rfl⟩
      · cases h
    | timers env =>
      dsimp only at h
      split at h
      · cases h
        exact Emits.all_timed rfl fun hP hT _ => runTimers_steps (s := s.withEnv env) hP hT
      · cases h
    | signal sig env =>
      dsimp only at h
      split at h
      · cases h
        exact handleSignal_steps hk sig env
      · cases h
    | child pid status env =>
      dsimp only at h
      split at h
      · rename_i hc
        cases h
        exact Emits.all_timed rfl fun hP hT hE => reapChild_steps (s := s.withEnv env) hP hT hk hc.2
          fun d hd hagain st b hb => hE _ _ (.restart hd hagain hb)
      · cases h
    | childrenDone =>
      dsimp only at h
      split at h
      · cases h; exact Path.nil _
      · cases h
    | rescan env =>
      dsimp only at h
      split at h
      · cases h
        rw [abs_goto]
        split
        · rename_i hauto
          rw [Bool.and_eq_true, Bool.not_eq_true'] at hauto
          exact rescanConfigs_steps (s := s.withEnv env) hP hk
            (Emits.mayRescan (.reaped hauto.1 hauto.2))
        · exact Path.nil _
      · cases h
    | packet fd p env =>
      dsimp only at h
      split at h
      · cases h
        rw [abs_goto]
        cases p with
        | manage name fromAddr displayNumber sessionID withAuth =>
          exact manage_steps hP name fromAddr displayNumber sessionID withAuth (s.withEnv env)
        | other => exact Path.nil _
      · cases h
    | accept x env =>
      dsimp only at h
      split at h
      · rename_i cr hcr
        split at h
        · rename_i hc
          cases h
          have hcr' : ctrlOf (s.withEnv env) x = some cr := by cases x <;> exact hcr
          exact acceptSock_steps (s := s.withEnv env) hP hcr' hc.2.1
        · cases h
      · cases h
    | hangup x fd =>
      dsimp only at h
      split at h
      · rename_i cr hcr
        split at h
        · rename_i hc
          cases h
          exact dropSock_steps hP hcr hc.2
        · cases h
      · cases h
    | command x fd line env =>
      dsimp only at h
      split at h
      · rename_i cr d hcr hsock
        split at h
        · cases h
          have hd : ∀ dd, d = some dd → (s.withEnv env).find dd.id = some dd := by
            rintro dd rfl
            cases x with
            | none => cases hsock
            | some i =>
              obtain ⟨d', hd', he⟩ := Option.map_eq_some_iff.mp hsock
              cases he
              rw [State.find_id hd']
              exact hd'
          refine processWords_steps (s := s.withEnv env) hP hk hd ?_ ?_
          · intro args hargs
            refine ⟨?_, ?_, ?_⟩
            · rintro dd r rfl hp hstart hperm
              exact .putLocal hsock hargs hp hstart ⟨hperm.shutdown, hperm.force, hperm.override⟩
            · intro r hp hc
              have hc : Cancels d r s := ⟨hc.how, hc.scope, hc.shutdown, hc.override⟩
              exact ⟨.cancelSd hsock hargs hp hc, Emits.mayRescan (.cancelled hsock hargs hp hc)⟩
            · intro r hp hhow hperm
              exact .putSd hsock hargs hp hhow ⟨hperm.shutdown, hperm.force, hperm.override⟩
          · intro i hr
            exact .raise hsock hr
        · cases h
      · cases h
    | dpipe i env =>
      dsimp only at h
      split at h
      · rename_i d hd
        split at h
        · rename_i hc
          cases h
          have hopen : d.pipe ≠ -1 := by have := hc.2.1; omega
          exact processDPipe_steps (s := s.withEnv env) hP hd hopen (fun hx => .xconnOk hx)
            (fun hu ha b => .acceptSd hu ha) fun hb b => .breakPipe hb
        · cases h
      · cases h
    | gpipe i env =>
      dsimp only at h
      split at h
      · rename_i d hd
        split at h
        · rename_i hc
          cases h
          have hopen : d.gpipe ≠ -1 := by have := hc.2.1; omega
          refine processGPipe_steps (s := s.withEnv env) hP hd hopen
            (fun hg r h1 h2 h3 => .greeterSd hg h1 h2 h3) (fun hg hc => ?_)
            fun hb => ⟨fun b => .breakGPipe hb, fun hg r => .brokenSd hg hb⟩
          intro j dj b v hj hl hv hvs
          exact .console hg hc hj hl hv hvs
        · cases h
      · cases h
    | idle =>
      dsimp only at h
      split at h
      · cases h; exact Path.nil _
      · cases h

end Kdm
