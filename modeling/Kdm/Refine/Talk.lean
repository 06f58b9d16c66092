import Kdm.Lib.Abort
import Kdm.Refine.Reap

/-!
# Messages refine the model

A conversation changes the daemon's variables between receives and sends, and each of these
may break it off (`gErr`).  `Quiet w i m` says that `m` only uses the pipe: it returns with
nothing changed but the environment, or is broken off with the pipe closed.
-/

namespace Kdm

open Runs Abort Talk

variable {P : Act → Abs → Prop} {s s' : State} {i : Id} {d : Display} {w : Pipe}

/-! ## Using the pipe -/

def Quiet {α : Type} (w : Pipe) (i : Id) (m : Talk α) : Prop :=
  ∀ s, Ends m s (fun _ s' => ∃ env, s' = s.withEnv env)
    (fun _ s' => ∃ env, s' = gClosen w i (s.withEnv env))

section

variable {α β : Type} {m : Talk α} {f : α → Talk β}

theorem Quiet.pure (a : α) : Quiet w i (Pure.pure a) := fun s => Ends.pure ⟨s.env, rfl⟩

theorem Quiet.bind (hm : Quiet w i m) (hf : ∀ a, Quiet w i (f a)) : Quiet w i (m >>= f) := by
  intro s
  refine Ends.bind ((hm s).mono ?_ fun _ _ h => h)
  rintro a s' ⟨env, rfl⟩
  exact hf a _

theorem Quiet.gWrite (v : Sent) : Quiet w i (gWrite w i v) := by
  intro s
  obtain ⟨env, he⟩ := answer_env s
  unfold Ends Talk.gWrite
  dsimp only
  rw [he]
  by_cases h : s.answer.1 = 0
  · rw [if_pos h]; exact ⟨env, rfl⟩
  · rw [if_neg h]; exact ⟨{ env with tx := v :: env.tx }, rfl⟩

theorem Quiet.gRead (n : Nat) : Quiet w i (gRead w i n) := by
  intro s
  unfold Ends Talk.gRead
  by_cases h : n ≤ s.env.rx.length
  · simp only [if_pos h]; exact ⟨_, rfl⟩
  · simp only [if_neg h]; exact ⟨_, rfl⟩

theorem Quiet.gRecvInt : Quiet w i (gRecvInt w i) :=
  Quiet.bind (Quiet.gRead 4) fun _ => Quiet.pure _

theorem Quiet.gMalloc : Quiet w i (gMalloc w i) := by
  intro s
  obtain ⟨env, he⟩ := malloc_env s
  unfold Ends Talk.gMalloc
  dsimp only
  rw [he]
  by_cases h : s.malloc.1 = true
  · rw [if_pos h]; exact ⟨env, rfl⟩
  · rw [if_neg h]; exact ⟨env, rfl⟩

theorem Quiet.gRecvArr : Quiet w i (gRecvArr w i) := by
  refine Quiet.bind (Quiet.gRead 4) fun b => ?_
  split
  · exact Quiet.pure _
  · exact Quiet.bind Quiet.gMalloc fun _ => Quiet.bind (Quiet.gRead _) fun _ => Quiet.pure _

theorem Quiet.gRecvStr : Quiet w i (gRecvStr w i) :=
  Quiet.bind Quiet.gRecvArr fun _ => Quiet.pure _

theorem Quiet.sendAll (l : List Sent) : Quiet w i (sendAll w i l) := by
  induction l with
  | nil => exact Quiet.pure _
  | cons v l ih => exact Quiet.bind (Quiet.gWrite v) fun _ => ih

/-- Use of the pipe, then the rest. -/
theorem Quiet.then {Q : β → State → Prop} {E : Unit → State → Prop} (hm : Quiet w i m)
    (hf : ∀ a env, Ends (f a) (s.withEnv env) Q E) (hE : ∀ env, E () (gClosen w i (s.withEnv env))) :
    Ends (m >>= f) s Q E := by
  refine Ends.bind ((hm s).mono ?_ ?_)
  · rintro a s' ⟨env, rfl⟩
    exact hf a env
  · rintro ⟨⟩ s' ⟨env, rfl⟩
    exact hE env

theorem Quiet.last {Q : α → State → Prop} {E : Unit → State → Prop} (hm : Quiet w i m)
    (hQ : ∀ a env, Q a (s.withEnv env)) (hE : ∀ env, E () (gClosen w i (s.withEnv env))) :
    Ends m s Q E := by
  refine (hm s).mono ?_ ?_
  · rintro a s' ⟨env, rfl⟩
    exact hQ a env
  · rintro ⟨⟩ s' ⟨env, rfl⟩
    exact hE env

theorem Ends.update {g : State → State} {Q : β → State → Prop} {E : Unit → State → Prop}
    {f : Unit → Talk β} (h : Ends (f ()) (g s) Q E) : Ends (Talk.update g >>= f) s Q E :=
  Ends.bind (m := Talk.update g) h

theorem Ends.get_bind {Q : β → State → Prop} {E : Unit → State → Prop} {f : State → Talk β}
    (h : Ends (f s) s Q E) : Ends (get >>= f) s Q E :=
  Ends.bind (m := (get : Talk State)) h

end

/-! ## Breaking off -/

/-- The action of `gErr`. -/
def breakAct (w : Pipe) (i : Id) : Act :=
  match w with
  | .pipe => .breakPipe i
  | .gpipe => .breakGPipe i

theorem gClosen_steps {a : Abs} (h : Steps P a (abs s)) (hd : s.find i = some d)
    (hopen : d.pipeFd w ≠ -1) (env : Env) (hB : ∀ b, P (breakAct w i) b) :
    Steps P a (abs (gClosen w i (s.withEnv env))) := by
  have hd1 : (s.withEnv env).find i = some d := hd
  refine h.then (breakAct w i) (hB _) ?_
  have hset := gClosen_open hd1 hopen
  rw [abs_withEnv] at hset
  cases w
  · exact ⟨viewOf d, abs_disp hd, hopen, hset⟩
  · exact ⟨viewOf d, abs_disp hd, hopen, hset⟩

/-! ## Messages of the session process -/

/-- How a conversation of display `i` over `w` may end. -/
abbrev Talks (P : Act → Abs → Prop) (w : Pipe) (i : Id) (m : Talk Unit) (s : State) (a : Abs) : Prop :=
  Ends m s (fun _ s' => Steps P a (abs s'))
    (fun _ s' => (∀ b, P (breakAct w i) b) → Steps P a (abs s'))

/-- The pipe is used and nothing else happens any more. -/
theorem Talks.quiet {a : Abs} {m : Talk Unit} (hm : Quiet w i m) (h : Steps P a (abs s))
    (hd : s.find i = some d) (hopen : d.pipeFd w ≠ -1) : Talks P w i m s a :=
  hm.last (fun _ _ => h) fun env hB => gClosen_steps h hd hopen env hB

/-- The pipe is used before the rest of the conversation. -/
theorem Talks.then {a : Abs} {α : Type} {m : Talk α} {f : α → Talk Unit} (hm : Quiet w i m)
    (h : Steps P a (abs s)) (hd : s.find i = some d) (hopen : d.pipeFd w ≠ -1)
    (hf : ∀ x env, Talks P w i (f x) (s.withEnv env) a) : Talks P w i (m >>= f) s a :=
  hm.then hf fun env hB => gClosen_steps h hd hopen env hB

theorem sessionDone_find (hd : s.find i = some d) : (sessionDone i s).find i =
    some { d with userSess := -1, userName := none, sessName := none } := find_modify_self hd fun _ => rfl

/-- What `D_UnUser` does with the request of display `d`, which the policy has to admit when it
takes the place of the global one. -/
theorem applyUnUser_steps (hP : Ordinary P) (hd : s.find i = some d)
    (hA : unUser d s = .accept → ∀ b, P (.acceptSd i) b) :
    Steps P (abs s) (abs (applyUnUser i s)) := by
  have hclear : abs (s.modify i fun d => { d with sdRec := { d.sdRec with how := 0, osname := none } }) =
      (abs s).set i { viewOf d with sd := { d.sdRec with how := 0, osname := none } } := abs_modify hd fun _ => rfl
  unfold applyUnUser
  rw [withDisplay_some hd]
  dsimp only
  split
  · exact Path.nil _
  · exact Path.nil _
  · rename_i hu
    have hhow : d.sdRec.how ≠ 0 := by
      intro h
      unfold unUser at hu
      rw [if_pos h] at hu
      cases hu
    refine Path.one (.acceptSd i) (hA hu _) ⟨viewOf d, abs_disp hd, hhow, ?_⟩
    refine Eq.trans (b := { abs (s.modify i fun d => { d with sdRec :=
      { d.sdRec with how := 0, osname := none } }) with sd := d.sdRec }) rfl ?_
    rw [hclear]
    rfl
  · exact Path.one (.dropSd i) (hP _ _ rfl) ⟨viewOf d, _, abs_disp hd, rfl, hclear⟩

theorem applyUnUser_find (hd : s.find i = some d) :
    ∃ r, (applyUnUser i s).find i = some { d with sdRec := r } := by
  have hclear : (s.modify i fun d => { d with sdRec := { d.sdRec with how := 0, osname := none } }).find i =
      some { d with sdRec := { d.sdRec with how := 0, osname := none } } := find_modify_self hd fun _ => rfl
  unfold applyUnUser
  rw [withDisplay_some hd]
  dsimp only
  split
  · exact ⟨d.sdRec, hd⟩
  · exact ⟨d.sdRec, hd⟩
  · exact ⟨_, hclear⟩
  · exact ⟨_, hclear⟩

/-- The request of display `i` is accepted at logout. -/
def AcceptsUnUser (i : Id) (s : State) : Prop :=
  ∃ d, (sessionDone i s).find i = some d ∧ unUser d (sessionDone i s) = .accept

theorem abs_setNLogin (name : String) (nuser npass nargs : Option String) (rl : Nat) (s : State) :
    abs (setNLogin name nuser npass nargs rl s) = abs s := by
  unfold setNLogin
  rcases hm : s.malloc with ⟨ok, s1⟩
  have h1 : abs s1 = abs s := abs_of_malloc hm
  exact h1

/-- **The `switch` of `processDPipe`.** -/
theorem dpyCommand_steps (hP : Ordinary P) {cmd : Int} (hd : s.find i = some d) (hopen : d.pipe ≠ -1)
    (hX : cmd = D_XConnOk → P (.xconnOk i) (abs s))
    (hA : cmd = D_UnUser → AcceptsUnUser i s → ∀ b, P (.acceptSd i) b) :
    Talks P .pipe i (dpyCommand i cmd) s (abs s) := by
  unfold dpyCommand
  split
  · -- D_User
    refine Talks.then Quiet.gRecvInt (Path.nil _) hd hopen fun uid env => Ends.update ?_
    have hd1 : (s.withEnv env).find i = some d := hd
    have hd2 := find_modify_self (f := fun d => { d with userSess := uid }) hd1 fun _ => rfl
    have h2 : Steps P (abs s) (abs ((s.withEnv env).modify i fun d => { d with userSess := uid })) :=
      Path.one (.user i uid) (hP _ _ rfl) ⟨viewOf d, abs_disp hd, hopen, abs_modify hd1 (fun _ => rfl)⟩
    generalize (s.withEnv env).modify i (fun d => { d with userSess := uid }) = s2 at hd2 h2 ⊢
    refine Talks.then Quiet.gRecvStr h2 hd2 hopen fun user env => Ends.update ?_
    have hd3 : (s2.withEnv env).find i = _ := hd2
    have hd4 := find_modify_self (f := fun d => { d with userName := user }) hd3 fun _ => rfl
    have h4 : Steps P (abs s) (abs ((s2.withEnv env).modify i fun d => { d with userName := user })) := by
      rw [abs_modify_unseen (by intro; rfl) (by intro; rfl)]; exact h2
    generalize (s2.withEnv env).modify i (fun d => { d with userName := user }) = s4 at hd4 h4 ⊢
    refine Talks.then Quiet.gRecvStr h4 hd4 hopen fun sess env => ?_
    show Steps P (abs s) (abs ((s4.withEnv env).modify i fun d => { d with sessName := sess }))
    rw [abs_modify_unseen (by intro; rfl) (by intro; rfl)]
    exact h4
  · split
    · -- D_UnUser
      rename_i hcmd
      refine Ends.update (Ends.get_bind (Ends.update ?_))
      have hd1 := sessionDone_find hd
      have h1 : Steps P (abs s) (abs (sessionDone i s)) :=
        Path.one (.user i (-1)) (hP _ _ rfl) ⟨viewOf d, abs_disp hd, hopen, abs_modify hd (fun _ => rfl)⟩
      have h2 := h1.trans (applyUnUser_steps hP hd1 fun hu => hA hcmd ⟨_, hd1, hu⟩)
      obtain ⟨r, hd2⟩ := applyUnUser_find hd1
      exact Talks.quiet (Quiet.gWrite _) h2 hd2 hopen
    · split
      · -- D_ReLogin
        refine Talks.then Quiet.gRecvStr (Path.nil _) hd hopen fun user env1 => ?_
        refine Talks.then Quiet.gRecvStr (Path.nil (abs s)) (d := d) hd hopen fun pass env2 => ?_
        refine Talks.then Quiet.gRecvStr (Path.nil (abs s)) (d := d) hd hopen fun args env3 => ?_
        refine Path.of_eq (Eq.symm ?_)
        have hd1 : (((s.withEnv env1).withEnv env2).withEnv env3).find i = some d := hd
        dsimp only
        rw [withDisplay_some hd1]
        exact abs_setNLogin _ _ _ _ _ _
      · split
        · -- D_ChooseHost
          refine Talks.quiet ?_ (Path.nil _) hd hopen
          exact Quiet.bind Quiet.gRecvArr fun _ => Quiet.bind Quiet.gRecvArr fun _ =>
            Quiet.bind Quiet.gRecvInt fun _ => Quiet.bind Quiet.gRecvArr fun _ => Quiet.pure _
        · split
          · -- D_RemoteHost
            refine Ends.update ?_
            have hd1 := find_modify_self (f := fun d => { d with remoteHost := none }) hd fun _ => rfl
            have h1 : Steps P (abs s) (abs (s.modify i fun d => { d with remoteHost := none })) := by
              rw [abs_modify_unseen (by intro; rfl) (by intro; rfl)]; exact Path.nil _
            refine Talks.then Quiet.gRecvStr h1 hd1 hopen fun host env => ?_
            show Steps P (abs s) (abs (State.modify i _ (State.withEnv env _)))
            rw [abs_modify_unseen (by intro; rfl) (by intro; rfl)]
            exact h1
          · split
            · -- D_XConnOk
              rename_i hcmd
              exact Path.one (.xconnOk i) (hX hcmd) ⟨viewOf d, abs_disp hd, hopen, rfl⟩
            · exact stopDisplay_steps hP i s

/-! ## Messages of the greeter -/

theorem gRecvInt_ends {Q : Int → State → Prop} {E : Unit → State → Prop}
    (hQ : Q (int32 (s.env.rx.take 4)) (s.withEnv { s.env with rx := s.env.rx.drop 4 }))
    (hE : ∀ env, E () (gClosen w i (s.withEnv env))) : Ends (gRecvInt w i) s Q E := by
  refine Ends.bind ?_
  unfold Ends Talk.gRead
  by_cases h : 4 ≤ s.env.rx.length
  · simp only [if_pos h]; exact hQ
  · simp only [if_neg h]; exact hE _

/-- `G_Shutdown` puts a record with the times of the message in the place of the old one; when
it is broken off, a record of both. -/
theorem gShutdown_ends (hd : s.find i = some d) (hopen : d.gpipe ≠ -1)
    (hG : ∀ r : SdRec, r.how = bits2 (int32 (s.env.rx.take 4)) →
      r.start = int32 ((s.env.rx.drop 4).take 4) → r.given = r.start → P (.putSd r) (abs s)) :
    Ends (greeterCommand i G_Shutdown) s (fun _ s' => Steps P (abs s) (abs s'))
      (fun _ s' => (∀ b, P (.breakGPipe i) b) → (∀ r, P (.putSd r) (abs s)) →
        Steps P (abs s) (abs s')) := by
  -- the state of the conversation: only the shutdown record was written to
  have hput {r : SdRec} {s1 : State} (h1 : abs s1 = { abs s with sd := r })
      (hr : P (.putSd r) (abs s)) : Steps P (abs s) (abs s1) := Path.one (.putSd r) hr h1
  have hbreak {r : SdRec} {s1 : State} (h1 : abs s1 = { abs s with sd := r }) (env : Env)
      (hB : ∀ b, P (.breakGPipe i) b) (hS : ∀ r, P (.putSd r) (abs s)) :
      Steps P (abs s) (abs (gClosen .gpipe i (s1.withEnv env))) := by
    have hv : (abs s1).disp i = some (viewOf d) := by rw [h1]; exact abs_disp hd
    obtain ⟨d1, hd1, hv1⟩ := find_of_disp hv
    have hg : d1.gpipe = d.gpipe := (congrArg View.gpipe hv1).symm
    exact gClosen_steps (w := .gpipe) (hput h1 (hS r)) hd1 (by show d1.gpipe ≠ -1; rw [hg]; exact hopen)
      env hB
  have hset {f : SdRec → SdRec} {r : SdRec} (s1 : State) {k : Unit → Talk Unit}
      (h1 : abs s1 = { abs s with sd := r })
      (hk : ∀ s2, s2.env = s1.env → abs s2 = { abs s with sd := f r } →
        Ends (k ()) s2 (fun _ s' => Steps P (abs s) (abs s'))
          (fun _ s' => (∀ b, P (.breakGPipe i) b) → (∀ r, P (.putSd r) (abs s)) →
            Steps P (abs s) (abs s'))) :
      Ends (updateSd f >>= k) s1 (fun _ s' => Steps P (abs s) (abs s'))
        (fun _ s' => (∀ b, P (.breakGPipe i) b) → (∀ r, P (.putSd r) (abs s)) →
          Steps P (abs s) (abs s')) := by
    have hr : s1.sdRec = r := congrArg Abs.sd h1
    refine Ends.update (hk { s1 with sdRec := f s1.sdRec } rfl ?_)
    show { abs s1 with sd := f s1.sdRec } = _
    rw [h1, hr]
  have hrest {α : Type} {m : Talk α} {f : α → Talk Unit} {r : SdRec} {s1 : State}
      (hm : Quiet .gpipe i m) (h1 : abs s1 = { abs s with sd := r })
      (hf : ∀ x s2, abs s2 = { abs s with sd := r } →
        Ends (f x) s2 (fun _ s' => Steps P (abs s) (abs s'))
          (fun _ s' => (∀ b, P (.breakGPipe i) b) → (∀ r, P (.putSd r) (abs s)) →
            Steps P (abs s) (abs s'))) :
      Ends (m >>= f) s1 (fun _ s' => Steps P (abs s) (abs s'))
        (fun _ s' => (∀ b, P (.breakGPipe i) b) → (∀ r, P (.putSd r) (abs s)) →
          Steps P (abs s) (abs s')) :=
    hm.then (fun x env => hf x (s1.withEnv env) h1) fun env => hbreak h1 env
  show Ends (gRecvInt .gpipe i >>= _) s _ _
  refine Ends.bind (gRecvInt_ends ?_ fun env => hbreak (r := s.sdRec) rfl env)
  refine hset _ (r := s.sdRec) rfl fun s1 he1 h1 => ?_
  refine Ends.bind (gRecvInt_ends ?_ fun env => hbreak h1 env)
  rw [he1]
  refine hset (s1.withEnv _) h1 fun s2 _ h2 => ?_
  refine hrest Quiet.gRecvInt h2 fun timeout s3 h3 => hset s3 h3 fun s3 _ h3 => ?_
  refine hrest Quiet.gRecvInt h3 fun force s4 h4 => hset s4 h4 fun s4 _ h4 => ?_
  refine hrest Quiet.gRecvInt h4 fun uid s5 h5 => hset s5 h5 fun s5 _ h5 => ?_
  refine hrest Quiet.gRecvStr h5 fun option s6 h6 => Ends.get_bind ?_
  have hr : s6.sdRec = _ := congrArg Abs.sd h6
  refine hput (r := { s6.sdRec with osname := (setBootOption option s6).2 }) ?_ (hG _ ?_ ?_ ?_)
  · show { abs s6 with sd := { s6.sdRec with osname := (setBootOption option s6).2 } } = _
    rw [h6]
  · show s6.sdRec.how = _
    rw [hr]
  · show s6.sdRec.start = _
    rw [hr]
    rfl
  · show s6.sdRec.given = s6.sdRec.start
    rw [hr]

/-- The displays after a console switch: their locations are the same, and what was not
ignored before and is not now has its old `serverStatus`. -/
def Related (s s' : State) : Prop :=
  ∀ j d', s'.find j = some d' → ∃ d, s.find j = some d ∧ d'.isLocal = d.isLocal ∧
    (d'.serverStatus = d.serverStatus ∨ d'.serverStatus = .ignore)

theorem Related.of_find (h : ∀ j, s'.find j = s.find j) : Related s s' :=
  fun j d hd => ⟨d, (h j).symm.trans hd, rfl, .inl rfl⟩

theorem Related.trans {s'' : State} (h : Related s s') (h' : Related s' s'') : Related s s'' := by
  intro j d'' hd''
  obtain ⟨d', hd', hl', hs'⟩ := h' j d'' hd''
  obtain ⟨d, hd, hl, hs⟩ := h j d' hd'
  refine ⟨d, hd, hl'.trans hl, ?_⟩
  rcases hs' with hs' | hs'
  · rw [hs']; exact hs
  · exact .inr hs'

theorem Related.modify {f : Display → Display}
    (hs : ∀ d, (f d).serverStatus = d.serverStatus ∨ (f d).serverStatus = .ignore)
    (hid : ∀ d, (f d).id = d.id)
    (hl : ∀ d, (f d).isLocal = d.isLocal) :
    Related s (s.modify i f) := by
  intro j d' hd'
  rw [State.find_modify hid] at hd'
  split at hd'
  · rename_i hj
    obtain ⟨d, hd, rfl⟩ := Option.map_eq_some_iff.mp hd'
    exact ⟨d, hj ▸ hd, hl d, hs d⟩
  · exact ⟨d', hd', rfl, .inl rfl⟩

theorem stopToTTY_related (i : Id) (s : State) : Related s (stopToTTY i s) := by
  have habort : Related s (abortStartServer i s) := by
    unfold abortStartServer
    split
    · cases hd : s.find i with
      | none => rw [withDisplay_none hd]; exact Related.of_find fun _ => rfl
      | some d =>
        rw [withDisplay_some hd]
        dsimp only
        split
        · exact Related.modify (fun _ => .inr rfl) (fun _ => rfl) fun _ => rfl
        · exact Related.of_find fun _ => rfl
    · exact Related.of_find fun _ => rfl
  have hstop (s : State) : Related s (stopTo i (.textMode true) s) := by
    unfold stopTo
    cases hd : s.find i with
    | none => rw [withDisplay_none hd]; exact Related.of_find fun _ => rfl
    | some d =>
      rw [withDisplay_some hd]
      split
      · exact Related.modify (fun _ => .inl rfl) (fun _ => rfl) fun _ => rfl
      · exact Related.modify (fun _ => .inl rfl) (fun _ => rfl) fun _ => rfl
  unfold stopToTTY
  cases hd : s.find i with
  | none => rw [withDisplay_none hd]; exact Related.of_find fun _ => rfl
  | some d =>
    rw [withDisplay_some hd]
    split
    · split
      · exact Related.of_find fun _ => rfl
      · exact Related.of_find fun _ => rfl
      · exact habort.trans (hstop _)
    · exact Related.of_find fun _ => rfl

/-- The console switch may suspend the local displays of `s`. -/
def MayConsole (P : Act → Abs → Prop) (s : State) : Prop :=
  ∀ j d b v, s.find j = some d → d.isLocal = true → b.disp j = some v →
    (v.serverStatus = d.serverStatus ∨ v.serverStatus = .ignore) → P (.stop j .none (.textMode true)) b

theorem stopToTTY_steps (hP : Ordinary P) {s0 : State} (hK : MayConsole P s0) (i : Id)
    (hs : Related s0 s) : Steps P (abs s) (abs (stopToTTY i s)) := by
  unfold stopToTTY
  cases hd : s.find i with
  | none => rw [withDisplay_none hd]; exact Path.nil _
  | some d =>
    rw [withDisplay_some hd]
    have hgo (hl : d.isLocal = true) : Steps P (abs s) (abs (rStopDisplay i (.textMode true) s)) := by
      obtain ⟨d0, hd0, hl0, hs0⟩ := hs i d hd
      refine rStopDisplay_steps hP (Pending.none hd) (fun h => absurd rfl h) fun _ =>
        .inr ⟨by simp, fun b v hv hvs => hK i d0 b v hd0 (hl0 ▸ hl) hv ?_⟩
      have hvs : v.serverStatus = d.serverStatus ∨ v.serverStatus = .ignore := hvs
      rcases hvs with h | h
      · rw [h]; exact hs0
      · exact .inr h
    split
    · rename_i hl
      split
      · exact Path.nil _
      · exact Path.nil _
      · exact hgo hl
    · exact Path.nil _

/-- **`G_Console`.** -/
theorem gConsole_steps (hP : Ordinary P) (hK : s.conf.consoleTTYs ≠ [] → MayConsole P s) :
    Steps P (abs s) (abs (gConsole s)) := by
  unfold gConsole
  split
  · exact Path.nil _
  · rename_i hc
    have h1 := forEachDisplay_steps (P := P) (Q := Related s)
      (fun i s' hs => ⟨stopToTTY_steps hP (hK hc) i hs, hs.trans (stopToTTY_related i s')⟩)
      (Related.of_find (s := s) fun _ => rfl)
    exact h1.1.trans (checkTTYMode_steps hP _)

/-- **The `switch` of `processGPipe`.** -/
theorem greeterCommand_steps (hP : Ordinary P) {cmd : Int} (hd : s.find i = some d)
    (hopen : d.gpipe ≠ -1)
    (hG : cmd = G_Shutdown → ∀ r : SdRec, r.how = bits2 (int32 (s.env.rx.take 4)) →
      r.start = int32 ((s.env.rx.drop 4).take 4) → r.given = r.start → P (.putSd r) (abs s))
    (hK : cmd = G_Console → s.conf.consoleTTYs ≠ [] → MayConsole P s) :
    Ends (greeterCommand i cmd) s (fun _ s' => Steps P (abs s) (abs s'))
      (fun _ s' => (∀ b, P (.breakGPipe i) b) → (cmd = G_Shutdown → ∀ r, P (.putSd r) (abs s)) →
        Steps P (abs s) (abs s')) := by
  have hquiet {m : Talk Unit} (hm : Quiet .gpipe i m) :
      Ends m s (fun _ s' => Steps P (abs s) (abs s'))
        (fun _ s' => (∀ b, P (.breakGPipe i) b) → (cmd = G_Shutdown → ∀ r, P (.putSd r) (abs s)) →
          Steps P (abs s) (abs s')) :=
    (Talks.quiet hm (Path.nil _) hd hopen).mono (fun _ _ h => h) fun _ _ h hB _ => h hB
  have hget {f : State → Talk Unit} (hf : ∀ s, Quiet .gpipe i (f s)) : Quiet .gpipe i (get >>= f) :=
    Quiet.bind (fun s => ⟨s.env, rfl⟩) hf
  by_cases hcmd : cmd = G_Shutdown
  · subst hcmd
    exact (gShutdown_ends hd hopen (hG rfl)).mono (fun _ _ h => h) fun _ _ h hB hS => h hB (hS rfl)
  unfold greeterCommand
  rw [if_neg hcmd]
  split
  · refine hquiet (hget fun s => ?_)
    split
    · exact Quiet.sendAll _
    · exact Quiet.gWrite _
  · split
    · exact hquiet (hget fun s => Quiet.sendAll _)
    · split
      · refine hquiet (hget fun s => ?_)
        split
        · exact Quiet.sendAll _
        · exact Quiet.pure _
      · split
        · exact hquiet (Quiet.bind Quiet.gRecvInt fun _ => hget fun _ =>
            Quiet.bind (Quiet.sendAll _) fun _ => Quiet.gWrite _)
        · split
          · exact hquiet (Quiet.bind Quiet.gRecvInt fun _ => Quiet.pure _)
          · split
            · rename_i hcons
              exact gConsole_steps hP (hK hcons)
            · exact stopDisplay_steps hP i s

/-! ## Serving a pipe -/

/-- The conversation is broken off after its command was received. -/
def BreaksOff (talk : Int → Talk Unit) (s : State) : Prop :=
  ∃ cmd s1 e s2, gRecvCmd s = (some cmd, s1) ∧ talk cmd s1 = .error e s2

theorem gRecvCmd_env (s : State) : ∃ env, (gRecvCmd s).2 = s.withEnv env := by
  unfold gRecvCmd
  split
  · exact ⟨_, rfl⟩
  · exact ⟨_, rfl⟩

theorem unregisterPipe_steps (hP : Ordinary P) (w : Pipe) (i : Id) (s : State) :
    Steps P (abs s) (abs (unregisterPipe w i s)) := by
  unfold unregisterPipe
  cases hd : s.find i with
  | none => rw [withDisplay_none hd]; exact Path.nil _
  | some d =>
    rw [withDisplay_some hd, abs_unregisterInput]
    exact Path.one (.unregister _) (hP _ _ rfl) rfl

/-- Serving a pipe: the command, the conversation, and the display stopped after a break. -/
theorem process_steps (hP : Ordinary P) (talk : Int → Talk Unit) (w : Pipe)
    (htalk : ∀ cmd s1, gRecvCmd s = (some cmd, s1) → Ends (talk cmd) s1
      (fun _ s' => Steps P (abs s) (abs s'))
      (fun _ s' => BreaksOff talk s → Steps P (abs s) (abs s'))) :
    Steps P (abs s) (abs (match gRecvCmd s with
      | (none, s) => unregisterPipe w i s
      | (some cmd, s) => finishTalk i (talk cmd s))) := by
  obtain ⟨env, he⟩ := gRecvCmd_env s
  rcases hr : gRecvCmd s with ⟨cmd, s1⟩
  rw [hr] at he
  cases cmd with
  | none =>
    have h1 : abs s1 = abs s := by rw [show s1 = _ from he]; rfl
    dsimp only
    rw [← h1]
    exact unregisterPipe_steps hP w i s1
  | some cmd =>
    have h1 := htalk cmd s1 hr
    unfold Ends at h1
    unfold finishTalk
    dsimp only
    split at h1
    · rename_i hm
      rw [hm]
      exact h1
    · rename_i e s2 hm
      rw [hm]
      exact (h1 ⟨cmd, s1, e, s2, hr, hm⟩).trans (stopDisplay_steps hP i s2)

/-- **`processDPipe`.** -/
theorem processDPipe_steps (hP : Ordinary P) (hd : s.find i = some d) (hopen : d.pipe ≠ -1)
    (hX : (gRecvCmd s).1 = some D_XConnOk → P (.xconnOk i) (abs s))
    (hA : (gRecvCmd s).1 = some D_UnUser → AcceptsUnUser i (gRecvCmd s).2 → ∀ b, P (.acceptSd i) b)
    (hB : BreaksOff (dpyCommand i) s → ∀ b, P (.breakPipe i) b) :
    Steps P (abs s) (abs (processDPipe i s)) := by
  refine process_steps hP (dpyCommand i) .pipe fun cmd s1 hr => ?_
  obtain ⟨env, he⟩ := gRecvCmd_env s
  rw [hr] at hX hA he
  have h1 : abs s1 = abs s := by rw [show s1 = _ from he]; rfl
  have hd1 : s1.find i = some d := by rw [show s1 = _ from he]; exact hd
  rw [← h1] at hX ⊢
  refine (dpyCommand_steps hP hd1 hopen (fun hc => hX (by rw [hc])) fun hc => hA (by rw [hc])).mono
    (fun _ _ h => h) fun _ _ h hb => h (hB hb)

/-- **`processGPipe`.** -/
theorem processGPipe_steps (hP : Ordinary P) (hd : s.find i = some d) (hopen : d.gpipe ≠ -1)
    (hG : (gRecvCmd s).1 = some G_Shutdown → ∀ r : SdRec,
      r.how = bits2 (int32 ((gRecvCmd s).2.env.rx.take 4)) →
      r.start = int32 (((gRecvCmd s).2.env.rx.drop 4).take 4) → r.given = r.start →
        P (.putSd r) (abs s))
    (hK : (gRecvCmd s).1 = some G_Console → s.conf.consoleTTYs ≠ [] → MayConsole P s)
    (hB : BreaksOff (greeterCommand i) s → (∀ b, P (.breakGPipe i) b) ∧
      ((gRecvCmd s).1 = some G_Shutdown → ∀ r, P (.putSd r) (abs s))) :
    Steps P (abs s) (abs (processGPipe i s)) := by
  refine process_steps hP (greeterCommand i) .gpipe fun cmd s1 hr => ?_
  obtain ⟨env, he⟩ := gRecvCmd_env s
  rw [hr] at hG hK hB he
  have h1 : abs s1 = abs s := by rw [show s1 = _ from he]; rfl
  have hd1 : s1.find i = some d := by rw [show s1 = _ from he]; exact hd
  have hc1 : s1.conf = s.conf := by rw [show s1 = _ from he]; rfl
  have hK1 : MayConsole P s → MayConsole P s1 := by rw [show s1 = _ from he]; exact id
  rw [← h1] at hG hB ⊢
  rw [← hc1] at hK
  refine (greeterCommand_steps hP hd1 hopen (fun hc => hG (by rw [hc]))
    fun hc hne => hK1 (hK (by rw [hc]) hne)).mono (fun _ _ h => h) fun _ _ h hb =>
      h (hB hb).1 fun hc => (hB hb).2 (by rw [hc])

end Kdm
