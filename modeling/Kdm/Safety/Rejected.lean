import Kdm.Safety.Configured
import Kdm.Safety.Shutdown
import Kdm.Safety.StartSlot

/-!
# Rejected control commands

A command that is not answered with `ok` finds its fault before it changes anything, with one
exception: `manage` with one word of authorization data has made the display when it misses the
other (`manageCommand_rejected`).  Principal result: `rejected_unaffected_iff`.
-/

namespace Kdm

variable {s s' s1 : State} {i : Id} {d : Option Display} {args : List String} {name cls : String}

/-- The answer starts with `ok`. -/
def Reply.isOk : Reply → Bool
  | .fLog _ _ => false
  | _ => true

/-- The entry of a display in the history; one that is not there is as good as an empty one. -/
def State.record (s : State) (name : String) : DispHist :=
  (Keyed.get DispHist.name s.disphist name).getD ⟨name, 0, 0, false, false, none, none, none⟩

/-- Displays, shutdown records and login records are the same. -/
structure Unaffected (s s' : State) : Prop where
  displays : s'.displays = s.displays
  sdRec : s'.sdRec = s.sdRec
  record : ∀ name, s'.record name = s.record name

namespace Unaffected

theorem refl (s : State) : Unaffected s s := ⟨rfl, rfl, fun _ => rfl⟩

theorem trans {s'' : State} (h : Unaffected s s') (h' : Unaffected s' s'') : Unaffected s s'' :=
  ⟨h'.displays.trans h.displays, h'.sdRec.trans h.sdRec,
    fun name => (h'.record name).trans (h.record name)⟩

theorem withEnv (env : Env) (s : State) : Unaffected s (s.withEnv env) := ⟨rfl, rfl, fun _ => rfl⟩

theorem malloc (s : State) : Unaffected s s.malloc.2 := by
  obtain ⟨env, h⟩ := malloc_env s
  rw [h]
  exact withEnv env s

theorem answer (s : State) : Unaffected s s.answer.2 := by
  obtain ⟨env, h⟩ := answer_env s
  rw [h]
  exact withEnv env s

end Unaffected

/-- A command is answered with `ok` or has no effect. -/
def Harmless (s : State) (r : Reply × State) : Prop := r.1.isOk = true ∨ Unaffected s r.2

theorem Harmless.same (s : State) (r : Reply) : Harmless s (r, s) := .inr (.refl s)

/-! ## The commands -/

theorem reserveCommand_harmless (d : Option Display) (args : List String) (s : State) :
    Harmless s (reserveCommand d args s) := by
  unfold reserveCommand
  split
  · exact .same s _
  · split
    · exact .same s _
    · unfold startReserveDisplay
      split
      · rename_i h
        split at h
        · cases h; exact .inl rfl
        · cases h
      · rename_i h
        split at h
        · cases h
        · cases h; exact .same _ _

theorem activateCommand_harmless (d : Option Display) (args : List String) (s : State) :
    Harmless s (activateCommand d args s) := by
  unfold activateCommand
  split
  · exact .same s _
  · split
    · exact .same s _
    · split
      · exact .same s _
      · split
        · exact .same s _
        · dsimp only
          split
          · exact .inr (.answer s)
          · exact .inl rfl

theorem displayShutdown_harmless (d : Display) (r : SdRec) (s : State) :
    Harmless s (displayShutdown d r s) := by
  unfold displayShutdown
  dsimp only
  repeat' split
  all_goals first | exact .same s _ | exact .inl rfl

theorem globalShutdown_harmless (r : SdRec) (s : State) : Harmless s (globalShutdown r s) := by
  unfold globalShutdown
  repeat' split
  all_goals first | exact .same s _ | exact .inl rfl

theorem shutdownCommand_harmless (d : Option Display) (args : List String) (s : State) :
    Harmless s (shutdownCommand d args s) := by
  unfold shutdownCommand
  split
  · exact .same s _
  · split
    · exact displayShutdown_harmless _ _ s
    · exact globalShutdown_harmless _ s

theorem displayCommand_harmless (d : Display) (cmd : String) (args : List String) (s : State) :
    Harmless s (displayCommand d cmd args s) := by
  unfold displayCommand
  repeat' split
  all_goals first | exact .same s _ | exact .inl rfl

theorem loginCommand_harmless (args : List String) (s : State) :
    Harmless s (loginCommand args s) := by
  unfold loginCommand
  split
  · split
    · exact .same s _
    · dsimp only
      split
      · exact .inl rfl
      · split
        · exact .inr (.malloc s)
        · split
          · exact .inr (.malloc s)
          · exact .inl rfl
  · exact .same s _

theorem unmanageCommand_harmless (args : List String) (s : State) :
    Harmless s (unmanageCommand args s) := by
  unfold unmanageCommand
  split
  · exact .same s _
  · split
    · exact .same s _
    · split
      · exact .same s _
      · exact .inl rfl
  · exact .same s _

/-! ## `manage` -/

/-- Memory for the display and for the name of its class. -/
def ManageMemory (name cls : String) (s : State) : Prop :=
  (newDisplay name s).1.isSome = true ∧ (cls = "" ∨ (newDisplay name s).2.malloc.1 = true)

/-- A new display is asked for with one word of authorization data. -/
def LeavesDisplay (args : List String) (s : State) : Prop :=
  ∃ name cls auth, args = [name, cls, auth] ∧ name.toList.head? ≠ some ':' ∧
    findDisplayByName s name = none ∧ ManageMemory name cls s

theorem record_histFor (name : String) (s : State) :
    Unaffected s (histFor name s).2 := by
  unfold histFor
  split
  · exact .refl s
  · rename_i h
    have hm := Unaffected.malloc s
    have hh : s.malloc.2.disphist = s.disphist := by
      obtain ⟨env, he⟩ := malloc_env s
      rw [he]
    dsimp only
    split
    · refine ⟨hm.displays, hm.sdRec, fun n => ?_⟩
      show Option.getD (Keyed.get DispHist.name (_ :: _) n) _ = _
      rw [Keyed.get_cons]
      split
      · rename_i hn
        subst hn
        unfold State.record
        rw [h]
        rfl
      · exact hm.record n
    · exact hm

/-- What `newDisplay` leaves behind. -/
theorem newDisplay_cases (name : String) (s : State) : ∃ s1, Unaffected s s1 ∧ s1.nextId = s.nextId ∧
    (newDisplay name s = (none, s1) ∨ newDisplay name s = (some s.nextId, addDisplay name s1)) := by
  have hid : (histFor name s).2.nextId = s.nextId := by
    unfold histFor
    split
    · rfl
    · obtain ⟨env, he⟩ := malloc_env s
      dsimp only
      split <;> rw [he]
  obtain ⟨env, he⟩ := malloc_env (histFor name s).2
  have hmem := (record_histFor name s).trans (.malloc _)
  have hid' : (histFor name s).2.malloc.2.nextId = s.nextId := by rw [he]; exact hid
  unfold newDisplay
  dsimp only
  split
  · refine ⟨_, hmem, hid', ?_⟩
    split
    · right; rw [hid']
    · exact .inl rfl
  · exact ⟨_, record_histFor name s, hid, .inl rfl⟩

/-- The display that `manage` made, before class and authorization. -/
def managed (name : String) (i : Id) (s : State) : State :=
  (addDisplay name s).modify i fun d =>
    { d with displayType := ⟨.dForeign, .dPermanent, .dFromCommand⟩ }

/-- Removing the display that was just made leaves nothing behind. -/
theorem remove_managed {s2 : State} (h : Unaffected s s1) (hid : s1.nextId = s.nextId)
    (hfresh : ∀ d ∈ s.displays, d.id ≠ s.nextId)
    (h2 : Unaffected (managed name s.nextId s1) s2) : Unaffected s (removeDisplay s.nextId s2) := by
  refine ⟨?_, h2.sdRec.trans h.sdRec, fun n => (h2.record n).trans (h.record n)⟩
  have hlist : s2.displays = Keyed.update Display.id (Display.fresh s1.nextId name :: s.displays)
      s.nextId fun d => { d with displayType := ⟨.dForeign, .dPermanent, .dFromCommand⟩ } := by
    rw [h2.displays, ← h.displays]
    rfl
  show Keyed.erase Display.id s2.displays s.nextId = s.displays
  rw [hlist, Keyed.erase_update (by intro; rfl), hid]
  have hcons : Keyed.erase Display.id (Display.fresh s.nextId name :: s.displays) s.nextId =
      Keyed.erase Display.id s.displays s.nextId :=
    List.filter_cons_of_neg (by simp [Display.fresh])
  rw [hcons, Keyed.erase_of_forall_ne hfresh]

/-- The display that was made is one more in the list. -/
theorem managed_displays (h : Unaffected s s1) :
    s.displays ≠ (managed name i s1).displays := by
  intro he
  have hlen := congrArg List.length he
  have hmod : (managed name i s1).displays.length = s1.displays.length + 1 := by
    change (Keyed.update Display.id (Display.fresh s1.nextId name :: s1.displays) i _).length = _
    simp [Keyed.update]
  rw [hmod, h.displays] at hlen
  omega

/-- What becomes of the new display: it is kept and answered for, it is removed, or it is left. -/
inductive Fate (i : Id) (rest : List String) (s : State) : Reply × State → Prop
  | kept (r : Reply × State) (h : r.1.isOk = true) : Fate i rest s r
  | removed (r : Reply) {s' : State} (h : Unaffected s s')
      (hrest : ∀ cls auth, rest = [cls, auth] → cls ≠ "" ∧ s.malloc.1 = false) :
      Fate i rest s (r, removeDisplay i s')
  | left {cls auth : String} {s' : State} (hrest : rest = [cls, auth])
      (hm : cls = "" ∨ s.malloc.1 = true) (h : Unaffected s s') : Fate i rest s (missing, s')

theorem manageNew_fate (i : Id) (rest : List String) (s : State) :
    Fate i rest s (manageNew i rest s) := by
  unfold manageNew
  split
  · exact .kept _ rfl
  · rename_i cls auth
    obtain ⟨ok, s1, hr, h1, hok⟩ : ∃ ok s1, (if cls = "" then (true, s) else s.malloc) = (ok, s1) ∧
        Unaffected s s1 ∧ (ok = true ↔ cls = "" ∨ s.malloc.1 = true) := by
      split
      · rename_i hc; exact ⟨true, s, rfl, .refl s, by simp [hc]⟩
      · rename_i hc; exact ⟨s.malloc.1, s.malloc.2, rfl, .malloc s, .inr, fun h => h.resolve_left hc⟩
    rw [hr]
    dsimp only
    split
    · rename_i hm
      refine .removed _ h1 fun _ _ hrest => ?_
      cases hrest
      simpa [not_or] using mt hok.mpr hm
    · rename_i hm
      split
      · exact .kept _ rfl
      · exact .left rfl (hok.mp (by simpa using hm)) h1
      · split
        · exact .removed _ (h1.trans (.answer s1)) fun _ _ hrest => by cases hrest
        · exact .removed _ (h1.trans (.answer s1)) fun _ _ hrest => by cases hrest
        · exact .kept _ rfl
      · rename_i h _
        refine .removed _ h1 fun _ _ hrest => ?_
        cases hrest
        exact (h _ rfl).elim

/-- **A rejected `manage`** has an effect if and only if it misses a word after it made the
display. -/
theorem manageCommand_rejected (hfresh : ∀ d ∈ s.displays, d.id ≠ s.nextId)
    (hr : (manageCommand args s).1.isOk = false) :
    Unaffected s (manageCommand args s).2 ↔ ¬ LeavesDisplay args s := by
  unfold manageCommand at hr ⊢
  split at hr
  · exact iff_of_true (.refl s) fun ⟨_, _, _, h, _⟩ => by cases h
  · rename_i name rest
    split at hr
    · rename_i hn
      rw [if_pos hn]
      refine iff_of_true (.refl s) ?_
      rintro ⟨_, _, _, h, hn', _⟩
      cases h
      exact hn' hn
    · rename_i hn
      rw [if_neg hn]
      split at hr
      · rename_i hf
        rw [if_pos hf]
        refine iff_of_true (.refl s) ?_
        rintro ⟨_, _, _, h, _, hf', _⟩
        cases h
        rw [hf'] at hf
        cases hf
      · rename_i hf
        rw [if_neg hf]
        obtain ⟨s1, h1, hid, hnew | hnew⟩ := newDisplay_cases name s
        · rw [hnew]
          refine iff_of_true h1 ?_
          rintro ⟨_, _, _, h, _, _, hmem, _⟩
          cases h
          rw [hnew] at hmem
          cases hmem
        · rw [hnew] at hr ⊢
          dsimp only at hr ⊢
          change (manageNew s.nextId rest (managed name s.nextId s1)).1.isOk = false at hr
          change Unaffected s (manageNew s.nextId rest (managed name s.nextId s1)).2 ↔ _
          have hmalloc : (managed name s.nextId s1).malloc.1 = (addDisplay name s1).malloc.1 :=
            malloc_congr rfl
          have hfate := manageNew_fate s.nextId rest (managed name s.nextId s1)
          generalize manageNew s.nextId rest (managed name s.nextId s1) = r at hr hfate ⊢
          cases hfate with
          | kept _ h => rw [h] at hr; cases hr
          | removed r h hrest =>
            refine iff_of_true (remove_managed h1 hid hfresh h) ?_
            rintro ⟨_, _, _, hargs, _, _, _, hmem⟩
            cases hargs
            obtain ⟨hcls, hm⟩ := hrest _ _ rfl
            rw [hnew, ← hmalloc, hm] at hmem
            exact hmem.elim hcls Bool.false_ne_true
          | @left cls auth _ hrest hm h =>
            subst hrest
            refine iff_of_false (fun hu => ?_) (not_not.mpr ?_)
            · exact absurd (hu.displays.symm.trans h.displays) (managed_displays h1)
            · rw [hmalloc] at hm
              refine ⟨name, cls, auth, rfl, hn, by simpa using hf, ?_⟩
              unfold ManageMemory
              rw [hnew]
              exact ⟨rfl, hm⟩

/-! ## Principal result -/

/-- The line leaves a display behind that nobody asked for. -/
def LeftBehind (d : Option Display) (line : String) (s : State) : Prop :=
  d = none ∧ ∃ args, commandWords line = "manage" :: args ∧ LeavesDisplay args s

theorem Harmless.unaffected {r : Reply × State} (h : Harmless s r) (hr : r.1.isOk = false) :
    Unaffected s r.2 :=
  h.resolve_left (by rw [hr]; exact Bool.false_ne_true)

/-- Every command but `manage` is harmless. -/
theorem processWords_harmless {cmd : String} (h : ¬ (d = none ∧ cmd = "manage")) :
    Harmless s (processWords d (cmd :: args) s) := by
  unfold processWords
  dsimp only
  split
  · exact .same s _
  · split
    · exact .same s _
    · split
      · exact reserveCommand_harmless d args s
      · split
        · exact activateCommand_harmless d args s
        · split
          · exact shutdownCommand_harmless d args s
          · split
            · exact .same s _
            · split
              · exact displayCommand_harmless _ cmd args s
              · unfold globalCommand
                split
                · exact loginCommand_harmless args s
                · split
                  · split
                    · exact .same s _
                    · exact .inl rfl
                  · split
                    · rename_i hm
                      exact (h ⟨rfl, hm⟩).elim
                    · split
                      · exact unmanageCommand_harmless args s
                      · exact .same s _

/-- **Rejected commands**: a command that is not answered with `ok` has no effect if and only if
it is not a `manage` on the global socket with one word of authorization data for a display that
is new. -/
theorem rejected_unaffected_iff {env : Env} {line : String} (h : Reachable s)
    (hr : (processCtrl d line (s.withEnv env)).1.isOk = false) :
    Unaffected s (processCtrl d line (s.withEnv env)).2 ↔ ¬ LeftBehind d line (s.withEnv env) := by
  have hfresh : ∀ d ∈ (s.withEnv env).displays, d.id ≠ (s.withEnv env).nextId := fun d hd =>
    Nat.ne_of_lt ((reachable_keys h).below d.id (List.mem_map_of_mem hd))
  have henv : Unaffected s (processCtrl d line (s.withEnv env)).2 ↔
      Unaffected (s.withEnv env) (processCtrl d line (s.withEnv env)).2 :=
    ⟨fun hu => ⟨hu.displays, hu.sdRec, hu.record⟩, fun hu => ⟨hu.displays, hu.sdRec, hu.record⟩⟩
  rw [henv]
  unfold processCtrl LeftBehind at *
  cases hw : commandWords line with
  | nil => exact iff_of_true (.refl _) fun ⟨_, _, he, _⟩ => by cases he
  | cons cmd args =>
    rw [hw] at hr
    by_cases hm : d = none ∧ cmd = "manage"
    · obtain ⟨rfl, rfl⟩ := hm
      refine (manageCommand_rejected hfresh hr).trans (not_congr ?_)
      exact ⟨fun hl => ⟨rfl, args, rfl, hl⟩, fun ⟨_, _, he, hl⟩ => by cases he; exact hl⟩
    · refine iff_of_true ((processWords_harmless hm).unaffected hr) ?_
      rintro ⟨hd, args', he, _⟩
      cases he
      exact hm ⟨hd, rfl⟩

namespace Sample

def halfAuthorized : String := "manage\thost:0\tcls\tMIT-MAGIC-COOKIE-1"

end Sample

/-- A `manage` that is answered with "missing argument(s)" has made its display. -/
theorem not_rejected_unaffected : ∃ s, Reachable s ∧
    (processCtrl none Sample.halfAuthorized (s.withEnv { sys := [1, 1, 1] })).1.isOk = false ∧
    ¬ Unaffected s (processCtrl none Sample.halfAuthorized (s.withEnv { sys := [1, 1, 1] })).2 := by
  obtain ⟨s, hs, hp⟩ := reachable_of_run (C := fun _ _ => True) anyEvent
    (Sample.bootEnv (Sample.dmConf [":0"])) 50 (Sample.pass Sample.twoDisplays [100] 51)
    (fun s =>
      (processCtrl none Sample.halfAuthorized (s.withEnv { sys := [1, 1, 1] })).1.isOk == false &&
      decide ((processCtrl none Sample.halfAuthorized (s.withEnv { sys := [1, 1, 1] })).2.displays ≠
        s.displays))
    (fun _ _ _ => trivial) (by decide)
  rw [Bool.and_eq_true, beq_iff_eq, decide_eq_true_eq] at hp
  exact ⟨s, hs, hp.1, fun h => hp.2 h.displays⟩

/-- A `manage` that misses its name leaves everything as it is. -/
theorem rejected_unaffected_missing : ∃ s, Unaffected s (processCtrl none "manage" s).2 := by
  obtain ⟨s, hs, -⟩ := reachable_of_run (C := fun _ _ => True) anyEvent
    (Sample.bootEnv (Sample.dmConf [":0"])) 50 (Sample.pass Sample.twoDisplays [100] 51)
    (fun _ => true) (fun _ _ _ => trivial) (by decide)
  have hw : commandWords "manage" = ["manage"] := by decide
  have hr : (processCtrl none "manage" (s.withEnv s.env)).1.isOk = false := by
    unfold processCtrl
    rw [hw]
    rfl
  refine ⟨s, (rejected_unaffected_iff hs hr).mpr ?_⟩
  rintro ⟨-, args, he, _, _, _, hargs, -⟩
  rw [hw, hargs] at he
  cases he

end Kdm
