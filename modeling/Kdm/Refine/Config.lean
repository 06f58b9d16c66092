import Kdm.Refine.Session

/-!
# Rescans and shutdowns refine the model

The one action of a rescan that some results forbid is `makeReserve`: the configuration may
turn a display into a reserve display although its X server still runs.  `Blocked s N` says
that the display list of `s` has such a display with a name in `N`; the rescan cannot create
one, so `Blocked` is asked of the state before it.
-/

namespace Kdm

open Runs

variable {P : Act → Abs → Prop} {s s' : State} {i : Id} {d : Display} {N : String → Prop}

/-! ## Listening sockets -/

theorem updateListenerAddr_steps (hP : Ordinary P) (addr : String) (s : State) :
    Steps P (abs s) (abs (updateListenerAddr addr s).2) := by
  unfold updateListenerAddr
  split
  · refine Path.of_eq ?_
    have hfd : (Keyed.update SockList.addr s.listensocks addr fun l => { l with ref := true }).map
        SockList.fd = s.listensocks.map SockList.fd := by
      unfold Keyed.update
      rw [List.map_map]
      apply List.map_congr_left
      intro l _
      by_cases h : l.addr = addr <;> simp [h]
    unfold abs
    dsimp only
    rw [hfd]
    rfl
  · split
    · exact Path.nil _
    · rcases openFd_spec .listen s with ⟨env, he⟩ | ⟨fd, env, he, hfd, ht⟩
      · rw [he]; exact Path.nil _
      · rw [he]
        dsimp only
        rw [if_neg (by omega)]
        refine Path.one (.listenOpen fd) (hP _ _ rfl) ⟨hfd, ht, ?_⟩
        have h1 := abs_open (s := s) fd .listen env
        generalize ({ s with env := env, fds := (fd, .listen) :: s.fds } : State) = s1 at h1 ⊢
        show { abs (s1.registerInput fd) with listen := fd :: (abs (s1.registerInput fd)).listen } = _
        rw [abs_registerInput, h1]
        rfl

theorem updateListener_steps (hP : Ordinary P) (addr : Option String) (s : State) :
    Steps P (abs s) (abs (updateListener addr s)) := by
  cases addr with
  | some a => exact updateListenerAddr_steps hP a s
  | none =>
    have h1 := updateListenerAddr_steps hP "::" s
    unfold updateListener
    rcases hu : updateListenerAddr "::" s with ⟨ok, s1⟩
    rw [hu] at h1
    dsimp only at h1 ⊢
    split
    · exact h1
    · exact h1.trans (updateListenerAddr_steps hP _ s1)

theorem dropListenSockets_steps (hP : Ordinary P) (s : State) :
    Steps P (abs s) (abs (dropListenSockets s)) := by
  let keep := (s.listensocks.filter SockList.ref).map SockList.fd
  let dead := (s.listensocks.filter fun l => !l.ref).map SockList.fd
  refine Path.one (.listenDrop keep dead) (hP _ _ rfl) ⟨?_, ?_⟩
  · rw [← List.map_append]
    exact ((List.filter_append_perm SockList.ref s.listensocks).map SockList.fd).symm
  · unfold dropListenSockets
    rw [abs_closeEach fun fd s => ?_]
    · rfl
    · unfold destroyListeningSocket
      rw [abs_unregisterInput, abs_close]

theorem updateListenSockets_steps (hP : Ordinary P) (s : State) :
    Steps P (abs s) (abs (updateListenSockets s)) := by
  unfold updateListenSockets
  dsimp only
  have h1 : abs { s with listensocks := s.listensocks.map SockList.clearRef } = abs s := by
    unfold abs
    dsimp only
    rw [List.map_map]
    rfl
  rw [← h1]
  generalize ({ s with listensocks := s.listensocks.map SockList.clearRef } : State) = s1
  have hfold (l : List (Option String)) (s : State) :
      Steps P (abs s) (abs (l.foldl (fun s a => updateListener a s) s)) := by
    induction l generalizing s with
    | nil => exact Path.nil _
    | cons a l ih => exact (updateListener_steps hP a s).trans (ih _)
  refine Runs.Path.trans ?_ (dropListenSockets_steps hP _)
  exact hfold s.listenAddrs s1

/-! ## Configured servers -/

/-- A display that is not running still has its server, and its name is in `N`. -/
def Blocked (s : State) (N : String → Prop) : Prop :=
  ∃ d ∈ s.displays, N d.name ∧ d.serverPid ≠ -1 ∧ (d.status = .notRunning ∨ d.status = .reserve)

theorem Blocked.of_displays (h : s'.displays = s.displays) (hb : Blocked s' N) : Blocked s N := by
  unfold Blocked at hb ⊢
  rwa [h] at hb

/-- With distinct identities the display found by name is the one its pointer leads to. -/
theorem find_of_mem (hk : Keys (abs s)) (h : d ∈ s.displays) : s.find d.id = some d :=
  Keyed.get_of_mem hk.nodup h

theorem addDisplay_create (name : String) (s : State) :
    Step (.create .fresh) (abs s) (abs (addDisplay name s)) := by
  refine ⟨rfl, ?_⟩
  have hfd (j : Id) : ((addDisplay name s).find j).map viewOf =
      Function.update (fun j => (s.find j).map viewOf) s.nextId (some .fresh) j := by
    have : (addDisplay name s).find j =
        if (Display.fresh s.nextId name).id = j then some (Display.fresh s.nextId name)
        else s.find j := Keyed.get_cons
    rw [this, Function.update_apply]
    by_cases hj : j = s.nextId
    · subst hj; simp [Display.fresh, viewOf, View.fresh, Display.isLocal, CtrlRec.closed,
        DisplayConf.zero]
    · have : (Display.fresh s.nextId name).id ≠ j := fun h => hj h.symm
      simp [hj, this]
  unfold abs Abs.add
  rw [funext hfd]
  rfl

/-- What `newDisplay` may do. -/
theorem newDisplay_spec (name : String) (s : State) :
    (∃ s', newDisplay name s = (none, s') ∧ abs s' = abs s ∧ s'.displays = s.displays) ∨
      ∃ s1, newDisplay name s = (some s1.nextId, addDisplay name s1) ∧ abs s1 = abs s ∧
        s1.displays = s.displays := by
  have hhist : abs (histFor name s).2 = abs s ∧ (histFor name s).2.displays = s.displays := by
    unfold histFor
    split
    · exact ⟨rfl, rfl⟩
    · rcases hm : s.malloc with ⟨ok, s1⟩
      obtain ⟨env, he⟩ := malloc_env s
      rw [hm] at he
      dsimp only at he ⊢
      subst he
      split <;> exact ⟨rfl, rfl⟩
  unfold newDisplay
  rcases hh : histFor name s with ⟨ok, s1⟩
  rw [hh] at hhist
  dsimp only at hhist ⊢
  split
  · rcases hm : s1.malloc with ⟨ok', s2⟩
    obtain ⟨env, he⟩ := malloc_env s1
    rw [hm] at he
    dsimp only at he ⊢
    have ha2 : abs s2 = abs s := by rw [he]; exact hhist.1
    have hd2 : s2.displays = s.displays := by rw [he]; exact hhist.2
    split
    · exact .inr ⟨s2, rfl, ha2, hd2⟩
    · exact .inl ⟨s2, rfl, ha2, hd2⟩
  · exact .inl ⟨s1, rfl, hhist.1, hhist.2⟩

/-- `claimDisplay` on a display of the list. -/
theorem claimDisplay_steps (hP : Ordinary P) {lifetime : Lifetime} {name : String}
    (hd : s.find i = some d)
    (hR : lifetime = .dReserve → d.status = .notRunning →
      P (.makeReserve i) ((abs s).set i { viewOf d with
        isLocal := (claimDisplay lifetime name d).isLocal })) :
    Steps P (abs s) (abs (s.modify i (claimDisplay lifetime name))) := by
  rw [abs_modify hd (by intro; rfl)]
  have h1 : Step (.relocate i (claimDisplay lifetime name d).isLocal) (abs s)
      ((abs s).set i { viewOf d with isLocal := (claimDisplay lifetime name d).isLocal }) :=
    ⟨viewOf d, abs_disp hd, rfl⟩
  have hkeep : (claimDisplay lifetime name d).status = d.status →
      viewOf (claimDisplay lifetime name d) =
        { viewOf d with isLocal := (claimDisplay lifetime name d).isLocal } := by
    intro h
    unfold viewOf
    rw [h]
    rfl
  refine Runs.Path.trans (Path.one _ (hP _ _ rfl) h1) ?_
  by_cases hl : lifetime = .dReserve
  · by_cases hst : d.status = .notRunning
    · refine Path.one (.makeReserve i) (hR hl hst) ⟨_, by rw [Abs.set_disp, if_pos rfl], hst, ?_⟩
      rw [Abs.set_set]
      unfold viewOf claimDisplay
      simp [hl, hst]
    · rw [hkeep (by simp [claimDisplay, hl, hst])]
      exact Path.nil _
  · by_cases hst : d.status = .reserve
    · refine Path.one (.unreserve i) (hP _ _ rfl) ⟨_, by rw [Abs.set_disp, if_pos rfl], hst, ?_⟩
      rw [Abs.set_set]
      unfold viewOf claimDisplay
      simp [hl, hst]
    · rw [hkeep (by simp [claimDisplay, hl, hst])]
      exact Path.nil _

/-- `claimDisplay` makes no display `Blocked`. -/
theorem Blocked.claim {lifetime : Lifetime} {name : String}
    (h : Blocked (s.modify i (claimDisplay lifetime name)) N) : Blocked s N := by
  obtain ⟨d', hd', hN, hsp, hst⟩ := h
  obtain ⟨d, hd, rfl⟩ := List.mem_map.mp hd'
  split at hN
  · rename_i hi
    rw [if_pos hi] at hsp hst
    refine ⟨d, hd, hN, hsp, ?_⟩
    unfold claimDisplay at hst
    dsimp only at hst
    split_ifs at hst with h1 h2 h3
    · exact .inl h2
    · exact hst
    · exact .inr h3
    · exact hst
  · rename_i hi
    rw [if_neg hi] at hsp hst
    exact ⟨d, hd, hN, hsp, hst⟩

theorem Blocked.add {name : String} (h : Blocked (addDisplay name s) N) : Blocked s N := by
  obtain ⟨d, hd, hN, hsp, hst⟩ := h
  rcases List.mem_cons.mp hd with rfl | hd
  · exact absurd rfl hsp
  · exact ⟨d, hd, hN, hsp, hst⟩

/-- What a rescan may do to the policy's special action: the display that becomes a reserve
display has no server, or `s` was blocked. -/
def MayReserve (P : Act → Abs → Prop) (s : State) (N : String → Prop) : Prop :=
  ∀ i a, (∀ v, a.disp i = some v → v.serverPid ≠ -1 → Blocked s N) → P (.makeReserve i) a

theorem MayReserve.mono (h : MayReserve P s N) (hb : Blocked s' N → Blocked s N) :
    MayReserve P s' N :=
  fun i a ha => h i a fun v hv hp => hb (ha v hv hp)

theorem addServer_steps (hP : Ordinary P) (hk : Keys (abs s)) {lifetime : Lifetime} (srv : String)
    (hR : lifetime = .dReserve → MayReserve P s N ∧ N (serverName srv)) :
    Steps P (abs s) (abs (addServer lifetime srv s).2) ∧
      (Blocked (addServer lifetime srv s).2 N → Blocked s N) := by
  unfold addServer
  dsimp only
  split
  · rename_i d hf
    have hmem : d ∈ s.displays := Keyed.mem_of_get hf
    have hname : d.name = serverName srv := Keyed.key_of_get hf
    have hd := find_of_mem hk hmem
    refine ⟨claimDisplay_steps hP hd ?_, Blocked.claim⟩
    intro hl hst
    obtain ⟨hR, hN⟩ := hR hl
    refine hR _ _ fun v hv hsp => ⟨d, hmem, by rw [hname]; exact hN, ?_, .inl hst⟩
    rw [Abs.set_disp, if_pos rfl] at hv
    rw [← Option.some.inj hv] at hsp
    exact hsp
  · rcases newDisplay_spec (serverName srv) s with ⟨s1, he, ha, hds⟩ | ⟨s1, he, ha, hds⟩
    · rw [he]
      exact ⟨Path.of_eq ha.symm, Blocked.of_displays hds⟩
    · rw [he]
      dsimp only
      have hd : (addDisplay (serverName srv) s1).find s1.nextId =
          some (Display.fresh s1.nextId (serverName srv)) := by
        unfold addDisplay State.find
        rw [Keyed.get_cons]
        exact if_pos rfl
      have hcreate := addDisplay_create (serverName srv) s1
      rw [ha] at hcreate
      refine ⟨Runs.Path.trans (Path.one _ (hP _ _ rfl) hcreate) (claimDisplay_steps hP hd ?_), ?_⟩
      · intro hl _
        refine (hR hl).1 _ _ fun v hv hsp => ?_
        rw [Abs.set_disp, if_pos rfl] at hv
        rw [← Option.some.inj hv] at hsp
        exact absurd rfl hsp
      · intro hb
        exact Blocked.of_displays hds (Blocked.add (Blocked.claim hb))

theorem Keys.steps {a b : Abs} (hk : Keys a) (h : Steps P a b) : Keys b :=
  h.preserves (fun _ _ _ _ hs hk => hk.step hs) hk

theorem addServers_steps (hP : Ordinary P) (lifetime : Lifetime) (l : List String)
    (hk : Keys (abs s))
    (hR : lifetime = .dReserve → MayReserve P s N ∧ ∀ srv ∈ l, N (serverName srv)) :
    Steps P (abs s) (abs (addServers lifetime l s)) ∧
      (Blocked (addServers lifetime l s) N → Blocked s N) := by
  induction l generalizing s with
  | nil => exact ⟨Path.nil _, id⟩
  | cons srv l ih =>
    have h1 := addServer_steps hP hk srv
      fun hl => ⟨(hR hl).1, (hR hl).2 srv List.mem_cons_self⟩
    unfold addServers
    rcases ha : addServer lifetime srv s with ⟨ok, s1⟩
    rw [ha] at h1
    dsimp only at h1 ⊢
    cases ok with
    | false => exact h1
    | true =>
      have h2 := ih (hk.steps h1.1) fun hl =>
        ⟨(hR hl).1.mono h1.2, fun s hs => (hR hl).2 s (List.mem_cons_of_mem _ hs)⟩
      exact ⟨h1.1.trans h2.1, fun hb => h1.2 (h2.2 hb)⟩

theorem scanServers_steps (hP : Ordinary P) (hk : Keys (abs s)) (hR : MayReserve P s N)
    (hN : ∀ srv ∈ s.conf.reserveServers, N (serverName srv)) :
    Steps P (abs s) (abs (scanServers s)) := by
  unfold scanServers
  have h1 := addServers_steps (N := N) hP .dPermanent s.conf.staticServers hk
    fun hl => nomatch hl
  have h2 := addServers_steps (N := N) hP .dReserve s.conf.reserveServers
    (hk.steps h1.1) fun _ => ⟨hR.mono h1.2, hN⟩
  exact h1.1.trans h2.1

/-! ## Rescans -/

/-- The display names of the reserve servers that a rescan adds. -/
def reserveNames (force : Bool) (s : State) : List String :=
  match s.env.dmConf with
  | .failed _ => []
  | .unchanged => if force then s.conf.reserveServers.map serverName else []
  | .loaded c => c.reserveServers.map serverName

/-- A rescan of `s` may create the reserve displays of its configuration. -/
abbrev MayRescan (P : Act → Abs → Prop) (force : Bool) (s : State) : Prop :=
  MayReserve P s (· ∈ reserveNames force s)

theorem scanConfigs_steps (hP : Ordinary P) (hk : Keys (abs s)) {force : Bool}
    (hR : MayRescan P force s) : Steps P (abs s) (abs (scanConfigs force s).2) := by
  have hscan (c : GlobalConf) (hc : c.reserveServers.map serverName = reserveNames force s) :
      Steps P (abs s) (abs (scanAccessDatabase (scanServers { s with conf := c }))) := by
    have h1 : Steps P (abs s) (abs (scanServers { s with conf := c })) := by
      refine scanServers_steps (N := (· ∈ reserveNames force s)) (s := { s with conf := c }) hP hk hR ?_
      intro srv hsrv
      rw [← hc]
      exact List.mem_map_of_mem hsrv
    refine h1.trans (Path.of_eq ?_)
    unfold scanAccessDatabase
    split <;> rfl
  unfold scanConfigs loadDMResources
  unfold reserveNames at hscan
  cases hl : s.env.dmConf with
  | failed c => cases c <;> exact Path.nil _
  | unchanged =>
    rw [hl] at hscan
    cases force with
    | false => exact Path.nil _
    | true => exact hscan s.conf rfl
  | loaded c =>
    rw [hl] at hscan
    exact hscan c rfl

theorem updateCtrl_steps (hP : Ordinary P) (s : State) : Steps P (abs s) (abs (updateCtrl s)) := by
  unfold updateCtrl
  split
  · exact (closeCtrl_steps hP none s).trans (openCtrl_steps hP _)
  · exact Path.nil _

/-- **`rescanConfigs`.** -/
theorem rescanConfigs_steps (hP : Ordinary P) (hk : Keys (abs s)) {force : Bool}
    (hR : MayRescan P force s) : Steps P (abs s) (abs (rescanConfigs force s)) := by
  have h1 := scanConfigs_steps hP hk hR
  unfold rescanConfigs
  rcases hs : scanConfigs force s with ⟨ret, s1⟩
  rw [hs] at h1
  dsimp only at h1 ⊢
  split
  · exact h1.trans ((updateListenSockets_steps hP s1).trans (updateCtrl_steps hP _))
  · exact h1

theorem abs_markDisplay (i : Id) (s : State) : abs (markDisplay i s) = abs s :=
  abs_modify_unseen (fun _ => rfl) fun _ => rfl

/-- `checkDisplayStatus`, which may load new display resources. -/
theorem checkDisplayStatus_steps (hP : Ordinary P) (hC : ∀ i t o a, P (.conf i t o) a) (i : Id)
    (s : State) : Steps P (abs s) (abs (checkDisplayStatus i s)) := by
  unfold checkDisplayStatus
  cases hd : s.find i with
  | none => rw [withDisplay_none hd]; exact Path.nil _
  | some d =>
    rw [withDisplay_some hd]
    split
    · exact stopDisplay_steps hP i s
    · split
      · have hload : Steps P (abs s) (abs (loadDisplayResources i s).2) := by
          unfold loadDisplayResources
          split
          · exact Path.nil _
          · rename_i r rs _
            have hset (c : DisplayConf) : Steps P (abs s) (abs (State.modify i
                (fun d => { d with conf := c }) { s with env := { s.env with dpyConf := rs } })) := by
              refine Path.one (.conf i c.serverTimeout c.openDelay) (hC _ _ _ _)
                ⟨viewOf d, abs_disp hd, ?_⟩
              exact abs_modify hd fun _ => rfl
            dsimp only
            split
            · exact Path.nil _
            · exact hset _
            · exact Path.nil _
            · exact hset _
        rcases hl : loadDisplayResources i s with ⟨ret, s1⟩
        rw [hl] at hload
        dsimp only at hload ⊢
        split
        · exact hload.trans (stopDisplay_steps hP i s1)
        · exact hload
      · exact Path.nil _

/-! ## Shutting down -/

/-- `cancelShutdown`. -/
theorem cancelShutdown_steps (hP : Ordinary P) (hk : Keys (abs s)) (hR : MayRescan P true s)
    (hC : P .cancelSd (abs s)) : Steps P (abs s) (abs (cancelShutdown s)) := by
  have h1 : Step .cancelSd (abs s) (abs { s with
      sdRec := { s.sdRec with how := 0, osname := none }, stopping := false }) := rfl
  exact (Path.one _ hC h1).trans
    (rescanConfigs_steps (s := { s with
      sdRec := { s.sdRec with how := 0, osname := none }, stopping := false }) hP (hk.step h1) hR)

theorem stopInactiveDisplay_steps (hP : Ordinary P) (i : Id) (s : State) :
    Steps P (abs s) (abs (stopInactiveDisplay i s)) := by
  unfold stopInactiveDisplay
  cases hd : s.find i with
  | none => rw [withDisplay_none hd]; exact Path.nil _
  | some d =>
    rw [withDisplay_some hd]
    split
    · exact stopDisplay_steps hP i s
    · exact Path.nil _

/-- **`stoppen`**: the stopping flag is set after the displays were stopped, with the shutdown
record as it was. -/
theorem stoppen_steps (hP : Ordinary P) (force : Bool)
    (hS : ∀ a, a.sd = s.sdRec → a.now = s.now → P .stopAll a) :
    Steps P (abs s) (abs (stoppen force s)) := by
  have h0 := OnlyOrdinary.self
  have h1 := updateListenSockets_steps h0 { s with conf := { s.conf with requestPort := 0 } }
  unfold stoppen
  dsimp only
  generalize updateListenSockets { s with conf := { s.conf with requestPort := 0 } } = s1 at h1 ⊢
  have h2 : Steps OnlyOrdinary (abs s1)
      (abs (if force then forEachDisplay stopDisplay s1 else forEachDisplay stopInactiveDisplay s1)) := by
    split
    · exact (forEachDisplay_steps (Q := fun _ => True)
        (fun i s _ => ⟨stopDisplay_steps h0 i s, trivial⟩) trivial).1
    · exact (forEachDisplay_steps (Q := fun _ => True)
        (fun i s _ => ⟨stopInactiveDisplay_steps h0 i s, trivial⟩) trivial).1
  have h12 : Steps OnlyOrdinary (abs s) _ := Runs.Path.trans h1 h2
  obtain ⟨hsd, hnow, -⟩ := OnlyOrdinary.frame h12
  exact (OnlyOrdinary.steps hP h12).then .stopAll (hS _ hsd hnow) rfl

end Kdm
