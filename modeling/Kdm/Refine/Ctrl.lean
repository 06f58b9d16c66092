import Kdm.Refine.Talk

/-!
# Control commands refine the model

The `shutdown` command is the interesting one.  `shutdownCommand_cases` lists what it may do,
each with the permissions that were checked (`Permits`) and the parsed request; the actions it
takes are then justified from that.
-/

namespace Kdm

open Runs

variable {P : Act → Abs → Prop} {s : State} {i : Id} {d : Option Display} {args : List String}

/-! ## The `shutdown` command -/

/-- `allowShutdown`, or `FifoAllow`. -/
def MayShutdown (d : Option Display) (force : Fin 4) (s : State) : Prop :=
  match d with
  | some d => ¬ d.deniesShutdown force
  | none => s.conf.fifoAllowShutdown = true

/-- `allowNuke` for a forced shutdown. -/
def MayForce (d : Option Display) (force : Fin 4) (s : State) : Prop :=
  force = SHUT_FORCE →
    match d with
    | some d => ¬ d.deniesNuke
    | none => s.conf.fifoAllowNuke = true

/-- `allowNuke` against a forced shutdown that stands. -/
def MayOverride (d : Option Display) (s : State) : Prop :=
  s.sdRec.how ≠ 0 → s.sdRec.force = SHUT_FORCE →
    match d with
    | some d => ¬ d.deniesOverride s.sdRec.uid d.requestUid
    | none => s.sdRec.uid = -1 ∨ s.conf.fifoAllowNuke = true

/-- What was checked before a request with `force` was stored. -/
structure Permits (d : Option Display) (force : Fin 4) (s : State) : Prop where
  shutdown : MayShutdown d force s
  force : MayForce d force s
  override : MayOverride d s

/-- The uid a request counts for. -/
def requesterUid : Option Display → Int
  | some d => d.requestUid
  | none => -1

section

variable {onDisplay : Bool} {how : Fin 4} {start : Int} {os : Option String} {r : SdRec}

theorem parseTimeout_given (h : parseTimeout onDisplay how start os args s = .ok r) :
    r.given = r.start := by
  unfold parseTimeout at h
  repeat' split at h
  all_goals first
    | (cases h; done)
    | (cases h; rfl)

end

/-- The command cancels the global request. -/
structure Cancels (d : Option Display) (r : SdRec) (s : State) : Prop where
  how : r.how = 0
  scope : d.isSome = true → r.start ≠ 0
  shutdown : MayShutdown d r.force s
  override : MayOverride d s

/-- What a `shutdown` command may do to the daemon. -/
inductive ShutdownEffect (d : Option Display) (args : List String) (s : State) : State → Prop
  | none : ShutdownEffect d args s s
  | dropLocal (dd : Display) (r : SdRec) : d = some dd → r.how = 0 →
      ShutdownEffect d args s (s.modify dd.id fun d => { d with sdRec := r })
  | putLocal (dd : Display) (r : SdRec) : d = some dd → parseShutdown d args s = .ok r →
      r.start = 0 → Permits d r.force s →
      ShutdownEffect d args s
        (s.modify dd.id fun d => { d with sdRec := { r with uid := dd.requestUid } })
  | cancel (r : SdRec) : parseShutdown d args s = .ok r → Cancels d r s →
      ShutdownEffect d args s (cancelShutdown s)
  | put (r : SdRec) : parseShutdown d args s = .ok r → r.how ≠ 0 → Permits d r.force s →
      ShutdownEffect d args s { s with sdRec := { r with uid := requesterUid d } }

theorem displayShutdown_effect {dd : Display} {r : SdRec}
    (hp : parseShutdown (some dd) args s = .ok r) :
    ShutdownEffect (some dd) args s (displayShutdown dd r s).2 := by
  unfold displayShutdown
  dsimp only
  split
  · exact .none
  · rename_i hshut
    split
    · rename_i hc
      exact .dropLocal dd _ rfl hc.1
    · rename_i hkind
      split
      · exact .none
      · rename_i hover
        have hover : MayOverride (some dd) s := fun h1 h2 h3 => hover ⟨h1, h2, h3⟩
        split
        · exact .none
        · rename_i hforce
          have hforce : MayForce (some dd) r.force s := fun h1 h2 => hforce ⟨h1, h2⟩
          split
          · rename_i hstart
            exact .putLocal dd r rfl hp hstart ⟨hshut, hforce, hover⟩
          · rename_i hstart
            split
            · rename_i hhow
              exact .cancel r hp ⟨hhow, fun _ => hstart, hshut, hover⟩
            · rename_i hhow
              exact .put r hp hhow ⟨hshut, hforce, hover⟩

theorem globalShutdown_effect {r : SdRec} (hp : parseShutdown none args s = .ok r) :
    ShutdownEffect none args s (globalShutdown r s).2 := by
  unfold globalShutdown
  split
  · exact .none
  · rename_i hshut
    have hshut : MayShutdown none r.force s := not_not.mp hshut
    split
    · exact .none
    · rename_i hover
      have hover : MayOverride none s := by
        intro h1 h2
        by_cases h3 : s.sdRec.uid = -1
        · exact .inl h3
        · right
          by_contra h4
          exact hover ⟨h1, h2, h3, h4⟩
      split
      · rename_i hhow
        exact .cancel r hp ⟨hhow, fun hd => (nomatch hd), hshut, hover⟩
      · rename_i hhow
        split
        · exact .none
        · rename_i hforce
          have hforce : MayForce none r.force s := by
            intro h1
            by_contra h2
            exact hforce ⟨by rw [h1]; decide, h2⟩
          split
          · exact .none
          · exact .put r hp hhow ⟨hshut, hforce, hover⟩

/-- **The `shutdown` command.** -/
theorem shutdownCommand_effect (d : Option Display) (args : List String) (s : State) :
    ShutdownEffect d args s (shutdownCommand d args s).2 := by
  unfold shutdownCommand
  split
  · exact .none
  · rename_i r hp
    cases d with
    | some dd => exact displayShutdown_effect hp
    | none => exact globalShutdown_effect hp

/-- What a policy has to admit for a `shutdown` command. -/
structure MayCommand (P : Act → Abs → Prop) (d : Option Display) (args : List String) (s : State) :
    Prop where
  putLocal : ∀ dd r, d = some dd → parseShutdown d args s = .ok r → r.start = 0 →
    Permits d r.force s → P (.putLocalSd dd.id { r with uid := dd.requestUid }) (abs s)
  cancel : ∀ r, parseShutdown d args s = .ok r → Cancels d r s →
    P .cancelSd (abs s) ∧ MayRescan P true s
  put : ∀ r, parseShutdown d args s = .ok r → r.how ≠ 0 → Permits d r.force s →
    P (.putSd { r with uid := requesterUid d }) (abs s)

theorem shutdownCommand_steps (hP : Ordinary P) (hk : Keys (abs s))
    (hd : ∀ dd, d = some dd → s.find dd.id = some dd) (hM : MayCommand P d args s) :
    Steps P (abs s) (abs (shutdownCommand d args s).2) := by
  have heffect := shutdownCommand_effect d args s
  generalize (shutdownCommand d args s).2 = s' at heffect ⊢
  cases heffect with
  | none => exact Path.nil _
  | dropLocal dd r hdd hhow =>
    have hf := hd dd hdd
    exact Path.one (.dropSd dd.id) (hP _ _ rfl) ⟨_, r, abs_disp hf, hhow, abs_modify hf (fun _ => rfl)⟩
  | putLocal dd r hdd hp hstart hperm =>
    have hf := hd dd hdd
    exact Path.one _ (hM.putLocal dd r hdd hp hstart hperm) ⟨_, abs_disp hf, abs_modify hf (fun _ => rfl)⟩
  | cancel r hp hc =>
    obtain ⟨hC, hR⟩ := hM.cancel r hp hc
    exact cancelShutdown_steps hP hk hR hC
  | put r hp hhow hperm => exact Path.one _ (hM.put r hp hhow hperm) rfl

/-! ## Other commands -/

/-- The command `words` through socket `d` makes the session of display `i` a raiser. -/
def Raises (d : Option Display) (words : List String) (s : State) (i : Id) : Prop :=
  (∃ dd, d = some dd ∧ dd.id = i ∧ words = ["suicide"]) ∨
    (d = none ∧ ∃ name how user pass rest di, words = "login" :: name :: how :: user :: pass :: rest ∧
      findDisplayByName s name = some di ∧ di.id = i ∧ (di.userSess < 0 ∨ how = "now"))

theorem reserveCommand_steps (hP : Ordinary P) (hk : Keys (abs s)) :
    Steps P (abs s) (abs (reserveCommand d args s).2) := by
  have hstart : Steps P (abs s) (abs (startReserveDisplay s).2) := by
    unfold startReserveDisplay
    split
    · rename_i rd hrd
      obtain ⟨hmem, hst⟩ := List.mem_filter.mp (List.mem_of_getLast? hrd)
      have hst : rd.status = .reserve := by simpa using hst
      have hf := find_of_mem hk hmem
      exact Path.one (.unreserve rd.id) (hP _ _ rfl)
        ⟨viewOf rd, abs_disp hf, hst, abs_setStatus hf .notRunning⟩
    · exact Path.nil _
  unfold reserveCommand
  split
  · exact Path.nil _
  · split
    · exact Path.nil _
    · rcases hr : startReserveDisplay s with ⟨ok, s1⟩
      rw [hr] at hstart
      cases ok <;> exact hstart

theorem activateCommand_abs : abs (activateCommand d args s).2 = abs s := by
  unfold activateCommand
  split
  · rfl
  · split
    · rfl
    · split
      · rfl
      · split
        · rfl
        · rcases ha : s.answer with ⟨x, s1⟩
          have h1 : abs s1 = abs s := abs_of_answer ha
          dsimp only
          split <;> exact h1

theorem displayCommand_steps {dd : Display} {cmd : String} (hd : s.find dd.id = some dd)
    (hW : ∀ i, Raises (some dd) (cmd :: args) s i → P (.raise i) (abs s)) :
    Steps P (abs s) (abs (displayCommand dd cmd args s).2) := by
  unfold displayCommand
  split
  · split <;> exact Path.nil _
  · split
    · split <;> exact Path.nil _
    · split
      · rename_i hcmd
        split
        · exact Path.nil _
        · rename_i hargs
          split
          · rename_i hc
            have hr : Raises (some dd) (cmd :: args) s dd.id :=
              .inl ⟨dd, rfl, rfl, by rw [hcmd, not_not.mp hargs]⟩
            exact Path.one (.raise dd.id) (hW _ hr)
              ⟨viewOf dd, abs_disp hd, hc.1, hc.2, abs_setStatus hd .raiser⟩
          · exact Path.nil _
      · exact Path.nil _

theorem loginNow_steps (hP : Ordinary P) {di : Display} {nuke : Bool} {s1 : State}
    (h1 : abs s1 = abs s) (hd : s1.find di.id = some di)
    (hW : di.userSess < 0 ∨ nuke = true → P (.raise di.id) (abs s)) :
    Steps P (abs s) (abs (loginNow di nuke s1)) := by
  rw [← h1] at hW ⊢
  unfold loginNow
  split
  · rename_i hst
    split
    · rename_i hc
      exact Path.one (.raise di.id) (hW hc.2)
        ⟨viewOf di, abs_disp hd, hst, hc.1, abs_setStatus hd .raiser⟩
    · exact Path.nil _
  · rename_i hst
    exact Path.one (.unreserve di.id) (hP _ _ rfl)
      ⟨viewOf di, abs_disp hd, hst, abs_setStatus hd .notRunning⟩
  · exact Path.nil _

theorem find_setNLogin (name : String) (nuser npass nargs : Option String) (rl : Nat) (s : State) :
    (setNLogin name nuser npass nargs rl s).find i = s.find i := by
  obtain ⟨env, he⟩ := malloc_env s
  unfold setNLogin
  rcases hm : s.malloc with ⟨ok, s1⟩
  rw [hm] at he
  rw [show s1 = _ from he]
  rfl

theorem loginCommand_steps (hP : Ordinary P) (hk : Keys (abs s))
    (hW : ∀ i, Raises none ("login" :: args) s i → P (.raise i) (abs s)) :
    Steps P (abs s) (abs (loginCommand args s).2) := by
  unfold loginCommand
  split
  · rename_i name how user pass rest
    split
    · exact Path.nil _
    · rename_i di hf
      have hfind := find_of_mem hk (Keyed.mem_of_get hf)
      have hraise : di.userSess < 0 ∨ decide (how = "now") = true → P (.raise di.id) (abs s) := by
        intro h
        refine hW di.id (.inr ⟨rfl, name, how, user, pass, rest, di, rfl, hf, rfl, ?_⟩)
        simpa using h
      dsimp only
      split
      · exact loginNow_steps hP (abs_setNLogin _ _ _ _ _ _) ((find_setNLogin _ _ _ _ _ _).trans hfind)
          hraise
      · obtain ⟨env, he⟩ := malloc_env s
        rcases hm : s.malloc with ⟨ok, s1⟩
        rw [hm] at he
        have he : s1 = { s with env := env } := he
        have h1 : abs s1 = abs s := by rw [he]; rfl
        have hfind1 : s1.find di.id = some di := by rw [he]; exact hfind
        dsimp only
        split
        · exact Path.of_eq h1.symm
        · split
          · exact Path.of_eq h1.symm
          · exact loginNow_steps hP ((abs_setNLogin _ _ _ _ _ _).trans h1)
              ((find_setNLogin _ _ _ _ _ _).trans hfind1) hraise
  · exact Path.nil _

/-! ### Displays made on demand -/

/-- A display that is created and removed again leaves only its number behind. -/
theorem Abs.add_drop (a : Abs) (v : View) :
    (a.add v).drop a.nextId = { a.drop a.nextId with nextId := a.nextId + 1 } := by
  unfold Abs.add Abs.drop
  simp

/-- A new display that is written to where the model does not look, and then kept or not. -/
theorem newDisplay_steps (hP : Ordinary P) (name : String) (f : Display → Display)
    {s1 s2 : State} (h1 : abs s1 = abs s)
    (hf : viewOf (f (Display.fresh s1.nextId name)) = .fresh)
    (hid : ∀ d, (f d).id = d.id)
    (h2 : abs s2 = abs ((addDisplay name s1).modify s1.nextId f) ∨
      abs s2 = (abs ((addDisplay name s1).modify s1.nextId f)).drop s1.nextId) :
    Steps P (abs s) (abs s2) := by
  have hd : (addDisplay name s1).find s1.nextId = some (Display.fresh s1.nextId name) := by
    unfold addDisplay State.find
    rw [Keyed.get_cons]
    exact if_pos rfl
  have hcreate : abs (addDisplay name s1) = (abs s1).add .fresh := (addDisplay_create name s1).2
  have hsame : abs ((addDisplay name s1).modify s1.nextId f) = (abs s1).add .fresh := by
    rw [abs_modify hd hid, hf, ← hcreate]
    refine Abs.set_eq_self ?_
    rw [hcreate]
    exact Function.update_self _ _ _
  rw [hsame] at h2
  rw [← h1]
  rcases h2 with h2 | h2
  · exact Path.one (.create .fresh) (hP _ _ rfl) ⟨rfl, h2⟩
  · exact Path.one .discard (hP _ _ rfl) (h2.trans (Abs.add_drop _ _))

theorem manageNew_spec (i : Id) (rest : List String) (s : State) : ∃ s', abs s' = abs s ∧
    ((manageNew i rest s).2 = s' ∨ (manageNew i rest s).2 = removeDisplay i s') := by
  unfold manageNew
  split
  · exact ⟨s, rfl, .inl rfl⟩
  · rename_i cls auth
    have hcls : abs (if cls = "" then (true, s) else s.malloc).2 = abs s := by
      split
      · rfl
      · exact abs_malloc s
    rcases hm : (if cls = "" then (true, s) else s.malloc) with ⟨ok, s1⟩
    rw [hm] at hcls
    dsimp only at hcls ⊢
    split
    · exact ⟨s1, hcls, .inr rfl⟩
    · split
      · exact ⟨s1, hcls, .inl rfl⟩
      · exact ⟨s1, hcls, .inl rfl⟩
      · rcases ha : s1.answer with ⟨x, s2⟩
        have h2 : abs s2 = abs s := (abs_of_answer ha).trans hcls
        dsimp only
        split
        · exact ⟨s2, h2, .inr rfl⟩
        · exact ⟨s2, h2, .inr rfl⟩
        · exact ⟨s2, h2, .inl rfl⟩
      · exact ⟨s1, hcls, .inr rfl⟩

theorem manageCommand_steps (hP : Ordinary P) : Steps P (abs s) (abs (manageCommand args s).2) := by
  unfold manageCommand
  split
  · exact Path.nil _
  · rename_i name rest
    split
    · exact Path.nil _
    · split
      · exact Path.nil _
      · rcases newDisplay_spec name s with ⟨s1, he, h1, -⟩ | ⟨s1, he, h1, -⟩
        · rw [he]; exact Path.of_eq h1.symm
        · rw [he]
          dsimp only
          obtain ⟨s2, h2, h3⟩ := manageNew_spec s1.nextId rest ((addDisplay name s1).modify s1.nextId
            fun d => { d with displayType := ⟨.dForeign, .dPermanent, .dFromCommand⟩ })
          refine newDisplay_steps hP name
            (fun d => { d with displayType := ⟨.dForeign, .dPermanent, .dFromCommand⟩ }) h1 rfl
            (fun _ => rfl) ?_
          rcases h3 with h3 | h3
          · rw [h3]; exact .inl h2
          · rw [h3, abs_removeDisplay, h2]; exact .inr rfl

theorem unmanageCommand_steps (hP : Ordinary P) :
    Steps P (abs s) (abs (unmanageCommand args s).2) := by
  unfold unmanageCommand
  split
  · exact Path.nil _
  · split
    · exact Path.nil _
    · split
      · exact Path.nil _
      · exact stopDisplay_steps hP _ s
  · exact Path.nil _

/-- **`processCtrl`** on the words of a line. -/
theorem processWords_steps (hP : Ordinary P) (hk : Keys (abs s))
    {words : List String} (hd : ∀ dd, d = some dd → s.find dd.id = some dd)
    (hM : ∀ args, words = "shutdown" :: args → MayCommand P d args s)
    (hW : ∀ i, Raises d words s i → P (.raise i) (abs s)) :
    Steps P (abs s) (abs (processWords d words s).2) := by
  unfold processWords
  split
  · exact Path.nil _
  · rename_i cmd args
    split
    · exact Path.nil _
    · split
      · exact Path.nil _
      · split
        · exact reserveCommand_steps hP hk
        · split
          · exact Path.of_eq activateCommand_abs.symm
          · split
            · rename_i hcmd
              exact shutdownCommand_steps hP hk hd (hM args (by rw [hcmd]))
            · split
              · exact Path.nil _
              · cases d with
                | some dd => exact displayCommand_steps (hd dd rfl) hW
                | none =>
                  unfold globalCommand
                  dsimp only
                  split
                  · rename_i hcmd
                    rw [hcmd] at hW
                    exact loginCommand_steps hP hk hW
                  · split
                    · split
                      · exact Path.nil _
                      · exact wakeDisplays_steps hP s
                    · split
                      · exact manageCommand_steps hP
                      · split
                        · exact unmanageCommand_steps hP
                        · exact Path.nil _

end Kdm
