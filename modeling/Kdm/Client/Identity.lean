import Kdm.Client.Startup

/-!
# Who does what

The rules that the session process and its children keep to, whatever call fails on the way: the programs
of the user run as the user, and the scripts of the configuration do not.

* `Proper` — a deed is done by the right process.
* `Begun` — the startup script has passed.
* `Fine` — what holds of the deeds, in the session process and in its children.
* `Obeys` — a part of a process keeps to the rules, and changes no variables that matter.

Principal results: `ends_source`, what the result of a script says, and `ends_clientMain`, the process that
becomes the user.
-/

namespace Kdm.Client

open Abort
open Printf (Text str)

variable {c : Config} {p : Passwd} {w w' : World} {α : Type}

/-! ## Deeds -/

/-- The groups of the user, and those that the modules of PAM give him. -/
def userGroups (c : Config) : List Nat := c.pamGroups .setcred c.groups

def userCred (c : Config) (p : Passwd) : Cred := ⟨p.pw_uid, p.pw_gid, userGroups c⟩

/-- An environment that neither the user nor PAM has a part in. -/
def Scripted (c : Config) (p : Passwd) (e : StrArr) : Prop := ∃ heap, e = run heap (scriptEnv c p) none

/-- The process is the right one for what it does. -/
def Proper (c : Config) (p : Passwd) (x : Cred × Deed) : Prop :=
  match x.2 with
  | .client _ _ => x.1 = userCred c p
  | .home _ => x.1 = userCred c p
  | .script _ env => x.1.uid = 0 ∧ Scripted c p env
  | .register _ => x.1.uid = 0
  | .pam _ => x.1.uid = 0
  | .exited _ => True

def Deed.isClient : Deed → Bool
  | .client _ _ => true
  | _ => false

/-- A script passes if its status is 0 or cannot be had, and if its exit code is 127, which is there for a
program that cannot be run: `runAndWait` takes a result of `wcFromWait` for a status. -/
def Deed.passes : Deed → Prop
  | .exited status => status.getD 0 = 0 ∨ status = some (127 * 256)
  | _ => False

def Begun (c : Config) (ds : List (Cred × Deed)) : Prop :=
  c.startup = [] ∨ ∃ x ∈ ds, x.2.passes

/-- A status of `waitpid` for a process that has ended. -/
def Terminated (status : Nat) : Prop :=
  status < 65536 ∧ status % 128 ≠ 127 ∧ (status % 128 = 0 → status % 256 = 0)

def pamCalls (ds : List (Cred × Deed)) : List PamCall := ds.filterMap fun x =>
  match x.2 with
  | .pam call => some call
  | _ => none

structure Lawful (c : Config) (p : Passwd) (ds : List (Cred × Deed)) : Prop where
  proper : ∀ x ∈ ds, Proper c p x
  ordered : ∀ front x back, ds = front ++ x :: back → x.2.isClient = true → Begun c front

/-- The statuses that `waitpid` will give are such. -/
def Waits (w : World) : Prop := ∀ n status, w.statuses n = some status → Terminated status

/-- What holds of a process, whoever it is; with `b`, the startup script has passed. -/
def Fine (c : Config) (p : Passwd) (b : Bool) (calls : List PamCall) (w : World) : Prop :=
  Lawful c p w.deeds ∧ (b = true → Begun c w.deeds) ∧ pamCalls w.deeds = calls ∧ Waits w

theorem Begun.append {ds : List (Cred × Deed)} (h : Begun c ds) (ds' : List (Cred × Deed)) :
    Begun c (ds ++ ds') :=
  h.imp_right fun ⟨x, hx, hs⟩ => ⟨x, List.mem_append_left _ hx, hs⟩

theorem pamCalls_append (ds ds' : List (Cred × Deed)) :
    pamCalls (ds ++ ds') = pamCalls ds ++ pamCalls ds' := List.filterMap_append

theorem Lawful.nil : Lawful c p [] where
  proper := by simp
  ordered := by
    intro front x back h
    simp at h

/-- One more deed. -/
theorem Lawful.append {ds : List (Cred × Deed)} {x : Cred × Deed} (h : Lawful c p ds)
    (hp : Proper c p x) (hc : x.2.isClient = true → Begun c ds) : Lawful c p (ds ++ [x]) where
  proper := by
    intro y hy
    obtain hy | hy := List.mem_append.mp hy
    · exact h.proper y hy
    · rw [List.mem_singleton.mp hy]
      exact hp
  ordered := by
    intro front y back heq hy
    -- the client is the new deed, or it was there before
    obtain rfl | ⟨back, z, rfl⟩ := List.eq_nil_or_concat back
    · obtain ⟨rfl, hxe⟩ := List.append_inj' heq rfl
      cases hxe
      exact hc hy
    · rw [List.concat_eq_append, ← List.cons_append, ← List.append_assoc] at heq
      exact h.ordered front y back (List.append_inj' heq rfl).1 hy

variable {b : Bool} {calls : List PamCall}

theorem Fine.weaken (h : Fine c p b calls w) : Fine c p false calls w :=
  ⟨h.1, fun hb => (by cases hb), h.2.2⟩

theorem Fine.begun (h : Fine c p b calls w) (hb : Begun c w.deeds) : Fine c p true calls w :=
  ⟨h.1, fun _ => hb, h.2.2⟩

/-- One more deed that is no call of PAM. -/
theorem Fine.act {deed : Deed} (h : Fine c p b calls w) (hp : Proper c p (w.cred, deed))
    (hc : deed.isClient = true → b = true) (hd : ∀ call, deed ≠ .pam call) :
    Fine c p b calls { w with deeds := w.deeds ++ [(w.cred, deed)] } := by
  refine ⟨h.1.append hp fun hx => h.2.1 (hc hx), fun hb => (h.2.1 hb).append _, ?_, h.2.2.2⟩
  show pamCalls (w.deeds ++ [(w.cred, deed)]) = calls
  rw [pamCalls_append, h.2.2.1]
  cases deed with
  | pam call => exact absurd rfl (hd call)
  | _ => exact List.append_nil _

theorem Fine.pam {call : PamCall} (h : Fine c p b calls w) (hu : w.cred.uid = 0) :
    Fine c p b (calls ++ [call]) { w with deeds := w.deeds ++ [(w.cred, .pam call)] } := by
  refine ⟨h.1.append hu fun hx => (by cases hx), fun hb => (h.2.1 hb).append _, ?_, h.2.2.2⟩
  show pamCalls (w.deeds ++ [(w.cred, .pam call)]) = calls ++ [call]
  rw [pamCalls_append, h.2.2.1]
  rfl

/-! ## Statuses -/

theorem wcFromWait_exit {code : Nat} (h : code < 256) : wcFromWait (code * 256) = code := by
  have hw : code * 256 % 128 = 0 := by omega
  simp only [wcFromWait, hw, ne_eq, not_true, false_and, if_true, if_false]
  omega

theorem wcFromWait_signal {status : Nat} (h0 : status % 128 ≠ 0) (h127 : status % 128 ≠ 127) :
    wcFromWait status = status % 128 * 256 + status / 128 % 2 * 16384 := by
  simp only [wcFromWait, h0, h127, ne_eq, not_false_eq_true, and_self, if_true, if_false]
  omega

/-- The second time, an exit code of 127 is a process that has stopped, and so neither exited nor killed. -/
theorem wcFromWait_eq_zero {w : Nat} (hw : w < 65536) (h : wcFromWait w = 0) :
    w % 256 = 127 ∨ w = 0 := by
  by_cases h0 : w % 128 = 0
  · simp only [wcFromWait, h0, ne_eq, not_true, false_and, if_true, if_false] at h
    omega
  · by_cases h127 : w % 128 = 127
    · simp only [wcFromWait, h127, ne_eq, not_true, and_false, if_false] at h
      omega
    · rw [wcFromWait_signal h0 h127] at h
      omega

theorem wcFromWait_twice_eq_zero_iff {status : Nat} (h : Terminated status) :
    wcFromWait (wcFromWait status) = 0 ↔ status = 0 ∨ status = 127 * 256 := by
  constructor
  · intro hz
    obtain ⟨hlt, h127, hexit⟩ := h
    by_cases h0 : status % 128 = 0
    · obtain ⟨code, rfl⟩ : ∃ code, status = code * 256 :=
        ⟨status / 256, by have := hexit h0; omega⟩
      rw [wcFromWait_exit (by omega)] at hz
      have := wcFromWait_eq_zero (by omega) hz
      omega
    · rw [wcFromWait_signal h0 h127] at hz
      have := wcFromWait_eq_zero (by omega) hz
      omega
  · rintro (rfl | rfl)
    · rfl
    · rfl

/-! ## What the processes have in common -/

/-- The variables that the deeds depend on, and what the end of the session depends on. -/
structure Vars where
  cred : Cred
  saved_gids : Option (List Nat)
  removeAuth : Bool
  removeSession : Bool
  removeCreds : Bool
  pamh : Bool
  systemEnviron : StrArr

def World.vars (w : World) : Vars :=
  ⟨w.cred, w.saved_gids, w.removeAuth, w.removeSession, w.removeCreds, w.pamh, w.systemEnviron⟩

def Within (c : Config) (p : Passwd) (b : Bool) (calls : List PamCall) (V : Vars → Prop)
    (w : World) : Prop :=
  Fine c p b calls w ∧ V w.vars

/-- A process with the variables `V` may do it. -/
def Allowed (c : Config) (p : Passwd) (b : Bool) (V : Vars → Prop) (deed : Deed) : Prop :=
  (∀ v, V v → Proper c p (v.cred, deed)) ∧ (deed.isClient = true → b = true) ∧
    ∀ call, deed ≠ .pam call

/-- `m` keeps to the rules, and changes none of the variables. -/
abbrev Obeys (c : Config) (p : Passwd) (b : Bool) (calls : List PamCall) (V : Vars → Prop)
    (m : M α) : Prop :=
  Keeps (Within c p b calls V) (Fine c p b calls) m

variable {V : Vars → Prop}

theorem obeys_exit : Obeys c p b calls V (exit : M α) := Keeps.throw fun _ h => h.1

/-- Nothing is broken off here. -/
theorem obeys_answer {J : World → Prop} : Keeps (Within c p b calls V) J answer := by
  intro w h
  exact h

theorem obeys_act {deed : Deed} (hd : Allowed c p b V deed) : Obeys c p b calls V (act deed) := by
  intro w h
  exact ⟨h.1.act (hd.1 _ h.2) hd.2.1 hd.2.2, h.2⟩

theorem obeys_build (ops : List Op) (e : StrArr) : Obeys c p b calls V (build ops e) := by
  intro w h
  exact h

theorem obeys_runIf {m : M Unit} {t : Bool} (h : Obeys c p b calls V m) :
    Obeys c p b calls V (runIf t m) := Keeps.ite h Keeps.pure

/-- What the child does to its variables is lost, and its end is not that of the process. -/
theorem obeys_fork {J : World → Prop} {child : M Unit}
    (h : ∀ w, Within c p b calls V w →
      Ends child w (fun _ => Fine c p b calls) fun _ => Fine c p b calls) :
    Keeps (Within c p b calls V) J (fork child) := by
  unfold fork
  refine Keeps.bind obeys_answer fun t => Keeps.ite ?_ Keeps.pure
  intro w hw
  have hc := h w hw
  unfold Ends runChild at *
  cases hm : child w with
  | ok a w' =>
    rw [hm] at hc
    exact ⟨hc, hw.2⟩
  | error a w' =>
    rw [hm] at hc
    exact ⟨hc, hw.2⟩

theorem obeys_interpret {deed : List Text → StrArr → Deed} {env : StrArr}
    (hd : ∀ argv, Allowed c p b V (deed argv env)) (program : Text → Option Text)
    (argv : List Text) : Obeys c p b calls V (interpret deed program argv env) := by
  unfold interpret
  split
  · exact Keeps.pure
  · split
    · exact obeys_exit
    · refine Keeps.bind obeys_answer fun t => Keeps.ite ?_ Keeps.pure
      refine Keeps.bind (obeys_act (hd _)) fun _ => Keeps.bind obeys_answer fun t => ?_
      exact Keeps.ite obeys_exit Keeps.pure

theorem obeys_execute {deed : List Text → StrArr → Deed} {env : StrArr}
    (hd : ∀ argv, Allowed c p b V (deed argv env)) (program : Text → Option Text)
    (argv : List Text) : Obeys c p b calls V (execute deed program argv env) := by
  unfold execute
  refine Keeps.bind (obeys_act (hd argv)) fun _ => Keeps.bind obeys_answer fun t => ?_
  refine Keeps.ite obeys_exit (Keeps.bind obeys_answer fun t => ?_)
  exact Keeps.ite (obeys_interpret hd program argv) Keeps.pure

/-! ## Scripts -/

/-- A script has passed, or `ret` says that it has not. -/
def Reported (ret : Nat) (w : World) : Prop := ret = 0 → ∃ x ∈ w.deeds, x.2.passes

theorem ends_Wait4 (h : Within c p b calls V w) :
    Ends Wait4 w (fun ret w' => Within c p b calls V w' ∧ Reported (wcFromWait ret) w')
      fun _ => Fine c p b calls := by
  have hexit : Allowed c p b V (.exited (w.statuses 0)) :=
    ⟨fun _ _ => trivial, fun hc => (by cases hc), fun _ => (by simp)⟩
  have hnext : Within c p b calls V { w with statuses := fun n => w.statuses (n + 1) } :=
    ⟨⟨h.1.1, h.1.2.1, h.1.2.2.1, fun n => h.1.2.2.2 (n + 1)⟩, h.2⟩
  refine ⟨obeys_act hexit _ hnext, fun hret => ?_⟩
  refine ⟨(w.cred, .exited (w.statuses 0)), List.mem_append_right _ (List.mem_singleton_self _), ?_⟩
  show (w.statuses 0).getD 0 = 0 ∨ w.statuses 0 = some (127 * 256)
  cases hs : w.statuses 0 with
  | none => exact .inl rfl
  | some status =>
    rw [hs] at hret
    exact ((wcFromWait_twice_eq_zero_iff (h.1.2.2.2 0 status hs)).mp hret).imp id (congrArg some)

theorem ends_runAndWait {args : List Text} {env : StrArr}
    (hd : ∀ argv, Allowed c p b V (.script argv env)) (h : Within c p b calls V w) :
    Ends (runAndWait c.program args env) w (fun ret w' => Within c p b calls V w' ∧ Reported ret w')
      fun _ => Fine c p b calls := by
  unfold runAndWait
  have hfork : Obeys c p b calls V (fork (execute .script c.program args env)) :=
    obeys_fork fun w hw => (obeys_execute hd c.program args w hw).imp fun _ _ h => h.1
  refine (hfork w h).seq fun t w' h' => ?_
  cases t with
  | false => exact ⟨h', fun hret => (by cases hret)⟩
  | true =>
    refine (ends_Wait4 h').seq fun ret w' h' => ?_
    exact h'

theorem ends_source {env : StrArr} (file : Text) (arg : Option Text)
    (hd : ∀ argv, Allowed c p b V (.script argv env)) (h : Within c p b calls V w) :
    Ends (source c.program env file arg) w
      (fun ret w' => Within c p b calls V w' ∧ (file ≠ [] → Reported ret w'))
      fun _ => Fine c p b calls := by
  unfold source
  split
  · rename_i hf
    exact ⟨h, fun hne => absurd hf hne⟩
  · split
    · exact h.1
    · refine (obeys_answer w h).seq fun t w' h' => ?_
      cases t with
      | false => exact ⟨h', fun _ hret => (by cases hret)⟩
      | true => exact (ends_runAndWait hd h').imp fun _ _ h => ⟨h.1, fun _ => h.2⟩

/-! ## Identities -/

variable {Q : Bool → World → Prop} {E : Unit → World → Prop}

theorem ends_answer (h : ∀ t s, Q t { w with sys := s }) : Ends answer w Q E := h _ _

theorem ends_setgroups {groups : List Nat}
    (hyes : ∀ s, Q true { w with cred := { w.cred with groups := groups }, sys := s })
    (hno : ∀ s, Q false { w with sys := s }) : Ends (setgroups groups) w Q E := by
  unfold setgroups
  refine Ends.bind (ends_answer fun t s => ?_)
  cases t with
  | false => exact hno s
  | true => exact hyes s

theorem ends_setgid {gid : Nat}
    (hyes : ∀ s, Q true { w with cred := { w.cred with gid := gid }, sys := s })
    (hno : ∀ s, Q false { w with sys := s }) : Ends (setgid gid) w Q E := by
  unfold setgid
  refine Ends.bind (ends_answer fun t s => ?_)
  cases t with
  | false => exact hno s
  | true => exact hyes s

theorem ends_setUid {uid : Nat}
    (hyes : ∀ s, Q true { w with cred := { w.cred with uid := uid }, sys := s })
    (hno : ∀ s, Q false { w with sys := s }) : Ends (setUid uid) w Q E := by
  unfold setUid
  refine Ends.bind (ends_answer fun t s => ?_)
  cases t with
  | false => exact hno s
  | true => exact hyes s

theorem ends_saveGids {garbage : List Nat}
    (hyes : ∀ s, Q true { w with saved_gids := some w.cred.groups, sys := s })
    (hno : ∀ gids s, Q false { w with saved_gids := gids, sys := s }) :
    Ends (saveGids garbage) w Q E := by
  unfold saveGids
  refine Ends.bind (ends_answer fun t s => ?_)
  cases t with
  | false => exact hno _ s
  | true =>
    refine Ends.bind (ends_answer fun t s => ?_)
    cases t with
    | false => exact hno _ s
    | true => exact hyes s

theorem ends_restoreGids
    (hyes : ∀ gids s, w.saved_gids = some gids →
      Q true { w with cred := ⟨w.cred.uid, p.pw_gid, gids⟩, sys := s })
    (hno : ∀ cred s, cred.uid = w.cred.uid → Q false { w with cred := cred, sys := s }) :
    Ends (restoreGids p) w Q E := by
  unfold restoreGids
  refine Ends.bind (Ends.get ?_)
  cases hs : w.saved_gids with
  | none => exact hno w.cred w.sys rfl
  | some gids =>
    refine Ends.bind (ends_setgroups (fun s => ?_) fun s => hno _ _ rfl)
    exact ends_setgid (fun s => hyes gids s hs) fun s => hno _ _ rfl

theorem ends_resetGids
    (h : ∀ t cred s, cred.uid = w.cred.uid → Q t { w with cred := cred, sys := s }) :
    Ends resetGids w Q E := by
  unfold resetGids
  refine Ends.bind (ends_setgroups (fun s => ?_) fun s => h _ _ _ rfl)
  exact ends_setgid (fun s => h _ _ _ rfl) fun s => h _ _ _ rfl

theorem ends_setGid {groups : List Nat} {gid : Nat}
    (hyes : ∀ s, Q true { w with cred := ⟨w.cred.uid, gid, groups⟩, sys := s })
    (hno : ∀ cred s, cred.uid = w.cred.uid → Q false { w with cred := cred, sys := s }) :
    Ends (setGid groups gid) w Q E := by
  unfold setGid
  refine Ends.bind (ends_setgid (fun s => ?_) fun s => hno _ _ rfl)
  refine Ends.bind (ends_setgroups hyes fun s => ?_)
  refine Ends.bind (ends_setgid (fun s => ?_) fun s => ?_)
  · exact hno _ _ rfl
  · exact hno _ _ rfl

/-! ## The process of the user -/

def IsUser (c : Config) (p : Passwd) (v : Vars) : Prop := v.cred = userCred c p

/-- What a process needs in order to run a script, and to become the user. -/
structure Equipped (c : Config) (p : Passwd) (v : Vars) : Prop where
  root : v.cred.uid = 0
  groups : v.saved_gids = some (userGroups c)
  environ : Scripted c p v.systemEnviron

theorem allowed_home (what : HomeAct) : Allowed c p b (IsUser c p) (.home what) :=
  ⟨fun _ hv => hv, fun h => (by cases h), fun _ => (by simp)⟩

theorem allowed_client (argv : List Text) (env : StrArr) :
    Allowed c p true (IsUser c p) (.client argv env) :=
  ⟨fun _ hv => hv, fun _ => rfl, fun _ => (by simp)⟩

theorem allowed_script {env : StrArr} (hV : ∀ v, V v → v.cred.uid = 0) (he : Scripted c p env)
    (argv : List Text) : Allowed c p b V (.script argv env) :=
  ⟨fun v hv => ⟨hV v hv, he⟩, fun h => (by cases h), fun _ => (by simp)⟩

theorem allowed_register (hV : ∀ v, V v → v.cred.uid = 0) (login : Bool) :
    Allowed c p b V (.register login) :=
  ⟨hV, fun h => (by cases h), fun _ => (by simp)⟩

theorem obeys_setUserAuthorization : Obeys c p b calls (IsUser c p) (setUserAuthorization c) := by
  unfold setUserAuthorization
  refine Keeps.bind (obeys_act (allowed_home _)) fun _ => ?_
  split
  · exact Keeps.pure
  · refine Keeps.get fun w _ => Keeps.bind (obeys_build _ _) fun e => ?_
    refine Keeps.bind (obeys_build _ _) fun e' => ?_
    exact Keeps.modify fun _ h => h

theorem obeys_createClientLog (n : Nat) : Obeys c p b calls (IsUser c p) (createClientLog n) := by
  induction n with
  | zero => exact obeys_exit
  | succ n ih =>
    refine Keeps.bind obeys_answer fun t => Keeps.ite ?_ obeys_exit
    refine Keeps.bind (obeys_act (allowed_home _)) fun _ => Keeps.bind obeys_answer fun t => ?_
    refine Keeps.ite Keeps.pure (Keeps.bind obeys_answer fun t => ?_)
    exact Keeps.ite ih Keeps.pure

theorem obeys_openLog (home : Bool) (n : Nat) : Obeys c p b calls (IsUser c p) (openLog c home n) := by
  unfold openLog
  refine Keeps.bind (Keeps.ite (obeys_createClientLog n) Keeps.pure) fun ok => ?_
  exact Keeps.ite Keeps.pure (Keeps.bind (obeys_createClientLog n) fun _ => Keeps.pure)

theorem obeys_enterHome : Obeys c p b calls (IsUser c p) enterHome := by
  unfold enterHome
  refine Keeps.get fun w _ => ?_
  split
  · exact Keeps.pure
  · refine Keeps.bind (obeys_act (allowed_home _)) fun _ => Keeps.bind obeys_answer fun t => ?_
    refine Keeps.ite Keeps.pure (Keeps.get fun w _ => Keeps.bind (obeys_build _ _) fun e => ?_)
    exact Keeps.bind (Keeps.modify fun _ h => h) fun _ => Keeps.pure

theorem obeys_runSession : Obeys c p true calls (IsUser c p) (runSession c) := by
  unfold runSession
  split
  · exact obeys_exit
  · refine Keeps.bind obeys_answer fun t => Keeps.ite ?_ obeys_exit
    refine Keeps.get fun w _ => Keeps.bind (obeys_runIf ?_) fun _ => ?_
    · exact obeys_execute (fun argv => allowed_client argv _) _ _
    · exact obeys_execute (fun argv => allowed_client argv _) _ _

theorem obeys_asUser (n : Nat) : Obeys c p true calls (IsUser c p) (asUser c n) := by
  unfold asUser
  refine Keeps.bind obeys_setUserAuthorization fun _ => Keeps.bind obeys_enterHome fun home => ?_
  refine Keeps.bind (obeys_openLog home n) fun _ => ?_
  refine Keeps.bind (obeys_runIf (obeys_act (allowed_home _))) fun _ => ?_
  refine Keeps.get fun w _ => Keeps.bind (obeys_build _ _) fun e => ?_
  exact Keeps.bind (Keeps.modify fun _ h => h) fun _ => obeys_runSession

theorem ends_becomeUser (h : Within c p b calls (Equipped c p) w) :
    Ends (becomeUser c p) w
      (fun t w' => Fine c p b calls w' ∧ (t = true → IsUser c p w'.vars))
      fun _ => Fine c p b calls := by
  unfold becomeUser
  refine Ends.bind (Ends.get ((obeys_build _ _ w h).seq fun e w1 h1 => ?_))
  refine Ends.bind (Ends.modify ?_)
  refine Ends.bind (ends_restoreGids (fun gids s hg => ?_) fun cred s _ => ?_)
  · have hgids : gids = userGroups c := Option.some.inj (hg.symm.trans h1.2.groups)
    refine ends_setUid (fun s => ⟨h1.1, fun _ => ?_⟩) fun s => ⟨h1.1, fun ht => (by cases ht)⟩
    show (⟨p.pw_uid, p.pw_gid, gids⟩ : Cred) = userCred c p
    rw [hgids, userCred]
  · exact ⟨h1.1, fun ht => (by cases ht)⟩

/-- The startup script is run before the process becomes the user. -/
theorem ends_clientMain (n : Nat) (h : Within c p false calls (Equipped c p) w) :
    Ends (clientMain c p n) w (fun _ => Fine c p false calls) fun _ => Fine c p false calls := by
  have hroot : ∀ v, Equipped c p v → v.cred.uid = 0 := fun _ hv => hv.root
  unfold clientMain
  refine (obeys_act (allowed_register hroot true) w h).seq fun _ w1 h1 => ?_
  refine Ends.bind (Ends.get ?_)
  have hsource := ends_source c.startup c.td_setup (allowed_script hroot h1.2.environ) h1
  refine hsource.seq fun ret w2 h2 => ?_
  split
  · rename_i hret
    have hbegun : Begun c w2.deeds := by
      by_cases hs : c.startup = []
      · exact .inl hs
      · exact .inr (h2.2 hs hret)
    -- from here on the client may be started
    have h3 : Within c p true calls (Equipped c p) w2 := ⟨h2.1.1.begun hbegun, h2.1.2⟩
    refine Ends.bind ((ends_becomeUser h3).mono (fun t w4 h4 => ?_) fun _ _ h => h.weaken)
    cases t with
    | false => exact h4.1.weaken
    | true =>
      exact (obeys_asUser n w4 ⟨h4.1, h4.2 rfl⟩).mono (fun _ _ h => h.1.weaken) fun _ _ h => h.weaken
  · exact h2.1.1

theorem ends_home {what : HomeAct} (h : Fine c p b calls w) (hu : IsUser c p w.vars) :
    Ends (act (.home what)) w (fun _ => Fine c p b calls) fun _ => Fine c p b calls :=
  h.act hu (fun hc => (by cases hc)) fun _ => (by simp)

theorem ends_removeMain (h : Within c p b calls (Equipped c p) w) :
    Ends (removeMain p) w (fun _ => Fine c p b calls) fun _ => Fine c p b calls := by
  unfold removeMain
  refine Ends.bind (ends_restoreGids (fun gids s hg => ?_) fun cred s _ => h.1)
  have hgids : gids = userGroups c := Option.some.inj (hg.symm.trans h.2.groups)
  refine Ends.bind (ends_setUid (fun s => ?_) fun s => h.1)
  rw [if_pos rfl]
  refine ends_home h.1 ?_
  show (⟨p.pw_uid, p.pw_gid, gids⟩ : Cred) = userCred c p
  rw [hgids, userCred]

end Kdm.Client
