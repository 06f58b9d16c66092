import Kdm.Safety.Reaping

/-!
# Configured displays stay

A rescan brings the display list in line with the configuration: `addServers` looks every
configured server up by name and makes a display when there is none.  A zombie counts as found.
The configured displays are in the list from then on, as long as no stop is requested for them,
when none of the names belonged to a zombie that was to be removed (`configured_kept`); such a
zombie is lost (`configured_lost`).
-/

namespace Kdm

open Runs

variable {s s' s0 s1 t : State} {e : Event} {c : GlobalConf} {d : Display} {i : Id} {n m : String}

/-- The displays a configuration names. -/
def configuredNames (c : GlobalConf) : List String :=
  (c.staticServers ++ c.reserveServers).map serverName

/-- The configuration a rescan goes by, if it gets that far. -/
def scannedConf (force : Bool) (s : State) : Option GlobalConf :=
  match s.env.dmConf with
  | .loaded c => some c
  | .unchanged => if force then some s.conf else none
  | .failed _ => none

/-- The configuration is rescanned during the event, from state `t` on. -/
inductive Scans (s : State) : Event → Bool → State → Prop
  | hup {env} : Scans s (.signal .SIGHUP env) true (forEachDisplay markDisplay (s.withEnv env))
  | reaped {env} : s.stopping = false → s.conf.autoRescan = true →
      Scans s (.rescan env) false (s.withEnv env)
  | expired {env t} : s.sdRec.how ≠ 0 → (s.sdRec.start = TO_INF ∨ s.sdRec.start ≤ s.now) →
      s.sdRec.timeout ≤ s.now →
      t = { s.withEnv env with sdRec := { s.sdRec with start := TO_INF, timeout := TO_INF } } →
      wouldShutdown t = false →
      Scans s (.shutdown env) true
        { t with sdRec := { t.sdRec with how := 0, osname := none }, stopping := false }
  | cancelled {x fd line env d args r} : socketOf x s = some d →
      commandWords line = "shutdown" :: args → parseShutdown d args (s.withEnv env) = .ok r →
      Cancels d r s →
      Scans s (.command x fd line env) true
        { s.withEnv env with sdRec := { s.sdRec with how := 0, osname := none }, stopping := false }

/-- What a rescan must find: the configured names belong to no zombie that is to be removed, and
memory for the new displays. -/
structure ScanSafe (c : GlobalConf) (s : State) : Prop where
  found : ∀ n ∈ configuredNames c, ∀ d, findDisplayByName s n = some d → d.stays
  memory : ∀ x ∈ s.env.sys.take (2 * (configuredNames c).length), x ≠ 0

def Event.isChild : Event → Bool
  | .child _ _ _ => true
  | _ => false

/-- No display that `c` names and that stays so far is stopped for good.  The exit of a process of
a zombie is no such request, but the end of an earlier one. -/
def NotStopped (c : GlobalConf) (s : State) (e : Event) : Prop :=
  ∀ s', step e s = some s' → ∀ d ∈ s.displays, d.name ∈ configuredNames c → d.stays →
    ¬ (d.status = .zombie ∧ e.isChild = true) → Stays d.name s'

/-! ## What one item of a server list does -/

/-- The display found under the name stays. -/
def Claimable (n : String) (s : State) : Prop := ∀ d, findDisplayByName s n = some d → d.stays

/-- The items scanned so far took at most `k` answers of the kernel. -/
structure Scanned (k : ℕ) (s s' : State) : Prop where
  stays : ∀ n, Stays n s → Stays n s'
  claimable : ∀ n, Claimable n s → Claimable n s'
  sys : ∃ j ≤ k, s'.env.sys = s.env.sys.drop j
  conf : s'.conf = s.conf

namespace Scanned

variable {k l : ℕ} {s'' : State}

theorem refl (s : State) : Scanned 0 s s := ⟨fun _ h => h, fun _ h => h, ⟨0, le_rfl, rfl⟩, rfl⟩

theorem trans (h : Scanned k s s') (h' : Scanned l s' s'') : Scanned (k + l) s s'' where
  stays n hn := h'.stays n (h.stays n hn)
  claimable n hn := h'.claimable n (h.claimable n hn)
  sys := by
    obtain ⟨i, hi, hs⟩ := h.sys
    obtain ⟨j, hj, hs'⟩ := h'.sys
    refine ⟨i + j, by omega, ?_⟩
    rw [hs', hs, List.drop_drop]
  conf := h'.conf.trans h.conf

theorem mono (h : Scanned k s s') (hkl : k ≤ l) : Scanned l s s' :=
  ⟨h.stays, h.claimable, by obtain ⟨j, hj, hs⟩ := h.sys; exact ⟨j, hj.trans hkl, hs⟩, h.conf⟩

/-- The answers that are left for the items still to come. -/
theorem memory (h : Scanned k s s') (hm : ∀ x ∈ s.env.sys.take (k + l), x ≠ 0) :
    ∀ x ∈ s'.env.sys.take l, x ≠ 0 := by
  obtain ⟨j, hj, hs⟩ := h.sys
  intro x hx
  rw [hs, List.take_drop] at hx
  refine hm x ?_
  have hsub : (s.env.sys.take (j + l)) <+: s.env.sys.take (k + l) :=
    List.take_prefix_take_left (by omega)
  exact hsub.subset (List.mem_of_mem_drop hx)

end Scanned

theorem claimDisplay_fate (lifetime : Lifetime) (name : String) (d : Display) :
    SameFate d (claimDisplay lifetime name d) := by
  refine ⟨rfl, ?_, rfl⟩
  unfold claimDisplay
  dsimp only
  cases lifetime <;> cases d.status <;> simp

/-- A write that keeps the fate of the display it goes to. -/
theorem Scanned.modify {f : Display → Display} (hf : ∀ d, SameFate d (f d)) :
    Scanned 0 s (s.modify i f) where
  stays n := by
    rintro ⟨d, hd, hn, hst⟩
    have hfate : SameFate d (if d.id = i then f d else d) := by
      split
      · exact hf d
      · exact .refl d
    exact ⟨_, List.mem_map_of_mem hd, hfate.name.trans hn, hfate.stays hst⟩
  claimable n h := by
    intro d hd
    have hfind : findDisplayByName (s.modify i f) n =
        (findDisplayByName s n).map fun d => if d.id = i then f d else d := by
      unfold findDisplayByName State.modify Keyed.get Keyed.update
      rw [List.find?_map]
      congr 2
      funext d
      dsimp only [Function.comp_apply]
      split
      · rw [(hf d).name]
      · rfl
    rw [hfind] at hd
    obtain ⟨d', hd', rfl⟩ := Option.map_eq_some_iff.mp hd
    have hstays := h d' hd'
    split
    · exact (hf d').stays hstays
    · exact hstays
  sys := ⟨0, le_rfl, rfl⟩
  conf := rfl

theorem malloc_ok (h : ∀ x ∈ s.env.sys.take 1, x ≠ 0) :
    ∃ env, s.malloc = (true, { s with env := env }) ∧ ∃ j ≤ 1, env.sys = s.env.sys.drop j := by
  unfold State.malloc State.answer
  cases hs : s.env.sys with
  | nil => exact ⟨s.env, rfl, 0, by omega, by rw [hs]; rfl⟩
  | cons x xs =>
    have hx : x ≠ 0 := h x (by rw [hs]; simp)
    refine ⟨{ s.env with sys := xs }, ?_, 1, le_rfl, rfl⟩
    simp [hx]

theorem Scanned.of_env {env : Env} {k : ℕ} (h : ∃ j ≤ k, env.sys = s.env.sys.drop j) :
    Scanned k s { s with env := env } :=
  ⟨fun _ h => h, fun _ h => h, h, rfl⟩

theorem addDisplay_scanned (name : String) (s : State) : Scanned 0 s (addDisplay name s) where
  stays n := by
    rintro ⟨d, hd, h⟩
    exact ⟨d, List.mem_cons_of_mem _ hd, h⟩
  claimable n h := by
    intro d hd
    have hfind : findDisplayByName (addDisplay name s) n =
        if name = n then some (Display.fresh s.nextId name) else findDisplayByName s n :=
      Keyed.get_cons
    rw [hfind] at hd
    split at hd
    · cases hd
      exact Display.stays_of_status DisplayStatus.noConfusion
    · exact h d hd
  sys := ⟨0, le_rfl, rfl⟩
  conf := rfl

theorem histFor_ok (name : String) (h : ∀ x ∈ s.env.sys.take 1, x ≠ 0) :
    ∃ s', histFor name s = (true, s') ∧ Scanned 1 s s' := by
  unfold histFor
  split
  · exact ⟨s, rfl, (Scanned.refl s).mono (by omega)⟩
  · obtain ⟨env, he, hsys⟩ := malloc_ok h
    rw [he]
    exact ⟨_, rfl, ⟨fun _ h => h, fun _ h => h, hsys, rfl⟩⟩

/-- With memory, `newDisplay` puts a display of the name at the head of the list. -/
theorem newDisplay_ok (name : String) (h : ∀ x ∈ s.env.sys.take 2, x ≠ 0) :
    ∃ s', newDisplay name s = (some s'.nextId, addDisplay name s') ∧ Scanned 2 s s' := by
  obtain ⟨s1, h1, hs1⟩ := histFor_ok (s := s) name fun x hx =>
    h x ((List.take_prefix_take_left (by omega)).subset hx)
  have hm : ∀ x ∈ s1.env.sys.take 1, x ≠ 0 := hs1.memory (l := 1) h
  obtain ⟨env, he, hsys⟩ := malloc_ok hm
  unfold newDisplay
  rw [h1]
  dsimp only
  rw [if_pos rfl, he]
  exact ⟨{ s1 with env := env }, rfl, hs1.trans (.of_env hsys)⟩

theorem addServer_scanned (lifetime : Lifetime) (srv : String) (hc : Claimable (serverName srv) s)
    (h : ∀ x ∈ s.env.sys.take 2, x ≠ 0) :
    ∃ s', addServer lifetime srv s = (true, s') ∧ Scanned 2 s s' ∧ Stays (serverName srv) s' := by
  have hclaim (i : Id) (s : State) := Scanned.modify (s := s) (i := i)
    (claimDisplay_fate lifetime (serverName srv))
  unfold addServer
  dsimp only
  split
  · rename_i d hd
    have hstays : Stays (serverName srv) s :=
      ⟨d, Keyed.mem_of_get hd, Keyed.key_of_get hd, hc d hd⟩
    exact ⟨_, rfl, (hclaim d.id s).mono (by omega), (hclaim d.id s).stays _ hstays⟩
  · obtain ⟨s1, h1, hs1⟩ := newDisplay_ok (serverName srv) h
    rw [h1]
    have hnew : Stays (serverName srv) (addDisplay (serverName srv) s1) :=
      ⟨_, List.mem_cons_self, rfl, Display.stays_of_status DisplayStatus.noConfusion⟩
    exact ⟨_, rfl, (hs1.trans (addDisplay_scanned _ s1)).trans (hclaim _ _),
      (hclaim _ _).stays _ hnew⟩

/-- With memory and no name taken by a zombie to be removed, every item gets its display. -/
theorem addServers_scanned (lifetime : Lifetime) (srvs : List String) (s : State)
    (hc : ∀ srv ∈ srvs, Claimable (serverName srv) s)
    (h : ∀ x ∈ s.env.sys.take (2 * srvs.length), x ≠ 0) :
    Scanned (2 * srvs.length) s (addServers lifetime srvs s) ∧
      ∀ srv ∈ srvs, Stays (serverName srv) (addServers lifetime srvs s) := by
  induction srvs generalizing s with
  | nil => exact ⟨Scanned.refl s, fun _ hsrv => nomatch hsrv⟩
  | cons srv srvs ih =>
    have hlen : 2 * (srv :: srvs).length = 2 + 2 * srvs.length := by
      rw [List.length_cons]; omega
    rw [hlen] at h ⊢
    obtain ⟨s1, h1, hs1, hst⟩ := addServer_scanned lifetime srv (hc srv List.mem_cons_self)
      fun x hx => h x ((List.take_prefix_take_left (by omega)).subset hx)
    obtain ⟨h2, hrest⟩ := ih s1 (fun srv' hsrv' => hs1.claimable _ (hc srv' (.tail _ hsrv')))
      (hs1.memory h)
    unfold addServers
    rw [h1]
    refine ⟨hs1.trans h2, ?_⟩
    intro srv' hsrv'
    rcases List.mem_cons.mp hsrv' with rfl | hsrv'
    · exact h2.stays _ hst
    · exact hrest srv' hsrv'

theorem scanServers_stays (h : ScanSafe s.conf s) :
    (∀ n ∈ configuredNames s.conf, Stays n (scanServers s)) ∧ (scanServers s).conf = s.conf := by
  have hlen : 2 * (configuredNames s.conf).length =
      2 * s.conf.staticServers.length + 2 * s.conf.reserveServers.length := by
    unfold configuredNames
    rw [List.length_map, List.length_append]
    omega
  have hmem := h.memory
  rw [hlen] at hmem
  have hname (srv : String) (hsrv : srv ∈ s.conf.staticServers ++ s.conf.reserveServers) :
      Claimable (serverName srv) s :=
    h.found _ (List.mem_map_of_mem hsrv)
  obtain ⟨h1, hst1⟩ := addServers_scanned .dPermanent s.conf.staticServers s
    (fun srv hsrv => hname srv (List.mem_append_left _ hsrv))
    fun x hx => hmem x ((List.take_prefix_take_left (by omega)).subset hx)
  obtain ⟨h2, hst2⟩ := addServers_scanned .dReserve s.conf.reserveServers _
    (fun srv hsrv => h1.claimable _ (hname srv (List.mem_append_right _ hsrv))) (h1.memory hmem)
  refine ⟨fun n hn => ?_, h2.conf.trans h1.conf⟩
  obtain ⟨srv, hsrv, rfl⟩ := List.mem_map.mp hn
  rcases List.mem_append.mp hsrv with hsrv | hsrv
  · exact h2.stays _ (hst1 srv hsrv)
  · exact hst2 srv hsrv

/-! ## The rest of a rescan -/

/-- Neither the display list nor the configuration is written to. -/
structure SameRoster (s s' : State) : Prop where
  displays : s'.displays = s.displays
  conf : s'.conf = s.conf

namespace SameRoster

variable {s'' : State}

theorem refl (s : State) : SameRoster s s := ⟨rfl, rfl⟩

theorem trans (h : SameRoster s s') (h' : SameRoster s' s'') : SameRoster s s'' :=
  ⟨h'.displays.trans h.displays, h'.conf.trans h.conf⟩

theorem foldl {α : Type} {g : α → State → State} (h : ∀ a s, SameRoster s (g a s)) (l : List α)
    (s : State) : SameRoster s (l.foldl (fun s a => g a s) s) := by
  induction l generalizing s with
  | nil => exact refl s
  | cons a l ih => exact (h a s).trans (ih (g a s))

theorem stays (h : SameRoster s s') (hn : Stays n s) : Stays n s' := by
  unfold Stays
  rw [h.displays]
  exact hn

end SameRoster

theorem openFd_sameRoster (o : Owner) (s : State) : SameRoster s (s.openFd o).2 := by
  rcases openFd_spec o s with ⟨env, he⟩ | ⟨fd, env, he, -, -⟩
  · rw [he]; exact ⟨rfl, rfl⟩
  · rw [he]; exact ⟨rfl, rfl⟩

theorem updateListenerAddr_sameRoster (addr : String) (s : State) :
    SameRoster s (updateListenerAddr addr s).2 := by
  unfold updateListenerAddr
  split
  · exact ⟨rfl, rfl⟩
  · split
    · exact .refl s
    · have h := openFd_sameRoster .listen s
      rcases hs : s.openFd .listen with ⟨fd, s1⟩
      rw [hs] at h
      dsimp only
      split
      · exact h
      · exact ⟨h.displays, h.conf⟩

theorem updateListener_sameRoster (addr : Option String) (s : State) :
    SameRoster s (updateListener addr s) := by
  cases addr with
  | some a => exact updateListenerAddr_sameRoster a s
  | none =>
    have h := updateListenerAddr_sameRoster "::" s
    unfold updateListener
    rcases hs : updateListenerAddr "::" s with ⟨ok, s1⟩
    rw [hs] at h
    dsimp only
    split
    · exact h
    · exact h.trans (updateListenerAddr_sameRoster _ s1)

theorem updateListenSockets_sameRoster (s : State) : SameRoster s (updateListenSockets s) := by
  unfold updateListenSockets
  dsimp only
  have h1 := SameRoster.foldl updateListener_sameRoster s.listenAddrs
    { s with listensocks := s.listensocks.map SockList.clearRef }
  have h2 (l : List Int) (s : State) :
      SameRoster s (l.foldl (fun s fd => destroyListeningSocket fd s) s) :=
    SameRoster.foldl (g := destroyListeningSocket) (fun _ _ => ⟨rfl, rfl⟩) l s
  unfold dropListenSockets
  dsimp only
  exact ⟨(h2 _ _).displays.trans h1.displays, (h2 _ _).conf.trans h1.conf⟩

theorem openCtrl_sameRoster (s : State) : SameRoster s (openCtrl none s) := by
  unfold openCtrl
  split
  · exact .refl s
  · dsimp only [ctrlOf]
    split
    · have h := openFd_sameRoster (.ctrl none) s
      rcases hs : s.openFd (.ctrl none) with ⟨fd, s1⟩
      rw [hs] at h
      dsimp only
      split
      · exact h
      · exact ⟨h.displays, h.conf⟩
    · exact .refl s

theorem closeCtrl_sameRoster (s : State) : SameRoster s (closeCtrl none s) := by
  unfold closeCtrl
  dsimp only [ctrlOf]
  split
  · have hnuke : ∀ fd s, SameRoster s (nukeFd fd s) := fun _ _ => ⟨rfl, rfl⟩
    have h := SameRoster.foldl hnuke s.ctrl.css
      (setCtrl none (fun cr => { cr with fd := -1, path := none })
        ((s.unregisterInput s.ctrl.fd).close s.ctrl.fd))
    exact ⟨h.displays, h.conf⟩
  · exact .refl s

theorem updateCtrl_sameRoster (s : State) : SameRoster s (updateCtrl s) := by
  unfold updateCtrl
  split
  · exact (closeCtrl_sameRoster s).trans (openCtrl_sameRoster _)
  · exact .refl s

theorem scanAccessDatabase_sameRoster (s : State) : SameRoster s (scanAccessDatabase s) := by
  unfold scanAccessDatabase
  split <;> exact ⟨rfl, rfl⟩

/-- **A rescan lists what the configuration it read names.** -/
theorem rescanConfigs_stays {force : Bool} (hc : scannedConf force t = some c) (h : ScanSafe c t) :
    (∀ n ∈ configuredNames c, Stays n (rescanConfigs force t)) ∧ (rescanConfigs force t).conf = c := by
  obtain ⟨t', hload, hconf, hsafe⟩ : ∃ t', loadDMResources force t = (1, t') ∧ t'.conf = c ∧
      ScanSafe c t' := by
    unfold scannedConf at hc
    unfold loadDMResources
    split at hc
    · rename_i c' hd
      cases hc
      rw [hd]
      exact ⟨{ t with conf := c }, rfl, rfl, h.found, h.memory⟩
    · rename_i hd
      split at hc
      · rename_i hforce
        cases hc
        rw [hd, if_pos hforce]
        exact ⟨t, rfl, rfl, h⟩
      · cases hc
    · cases hc
  subst hconf
  obtain ⟨h1, h1c⟩ := scanServers_stays hsafe
  have h2 := ((scanAccessDatabase_sameRoster (scanServers t')).trans
    (updateListenSockets_sameRoster _)).trans (updateCtrl_sameRoster _)
  have hgo : rescanConfigs force t =
      updateCtrl (updateListenSockets (scanAccessDatabase (scanServers t'))) := by
    unfold rescanConfigs scanConfigs
    rw [hload]
    rfl
  rw [hgo]
  exact ⟨fun n hn => h2.stays (h1 n hn), h2.conf.trans h1c⟩

/-! ## Cancelled shutdowns -/

section

variable {onDisplay : Bool} {how : Fin 4} {start : Int} {os : Option String} {args : List String}
  {r : SdRec}

theorem parseTimeout_how (h : parseTimeout onDisplay how start os args s = .ok r) : r.how = how := by
  unfold parseTimeout at h
  repeat' split at h
  all_goals first
    | (cases h; done)
    | (cases h; rfl)

theorem parseMode_how (h : parseMode onDisplay how os args s = .ok r) : r.how = how := by
  unfold parseMode at h
  split at h
  · cases h
  · split at h
    · exact parseTimeout_how h
    · dsimp only at h
      repeat' split at h
      all_goals first
        | (cases h; done)
        | (cases h; rfl)

theorem parseBootOption_how (h : parseBootOption onDisplay how args s = .ok r) : r.how = how := by
  unfold parseBootOption at h
  split at h
  · cases h
  · split at h
    · split at h
      · cases h
      · cases h
      · cases h
      · exact parseMode_how h
    · exact parseMode_how h

theorem parseCancel_force (h : parseCancel onDisplay args = .ok r) : r.force = SHUT_CANCEL := by
  unfold parseCancel at h
  repeat' split at h
  all_goals first
    | (cases h; done)
    | (cases h; rfl)

/-- Cancelling is not forced. -/
theorem parseShutdown_force {od : Option Display} (h : parseShutdown od args s = .ok r)
    (hhow : r.how = 0) : r.force = SHUT_CANCEL := by
  unfold parseShutdown at h
  split at h
  · cases h
  · split at h
    · cases h
    · split at h
      · exact parseCancel_force h
      · split at h
        · rw [parseBootOption_how h] at hhow
          cases hhow
        · split at h
          · rw [parseBootOption_how h] at hhow
            cases hhow
          · cases h

theorem shutdownCommand_cancels {od : Option Display} (hp : parseShutdown od args s = .ok r)
    (hc : Cancels od r s) : (shutdownCommand od args s).2 = cancelShutdown s := by
  have hforce := parseShutdown_force hp hc.how
  unfold shutdownCommand
  rw [hp]
  cases od with
  | some d =>
    have hstart := hc.scope rfl
    have hnuke : ¬ (s.sdRec.how ≠ 0 ∧ s.sdRec.force = SHUT_FORCE ∧
        d.deniesOverride s.sdRec.uid d.requestUid) := fun h => hc.override h.1 h.2.1 h.2.2
    have hdeny : ¬ d.deniesShutdown r.force := hc.shutdown
    dsimp only [displayShutdown]
    rw [if_neg hdeny, if_neg (fun h => hstart h.2), if_neg hnuke, if_neg, if_neg hstart,
      if_pos hc.how]
    rw [hforce]
    exact fun h => absurd h.1 (by decide)
  | none =>
    have hallow : s.conf.fifoAllowShutdown = true := hc.shutdown
    have hnuke : ¬ (s.sdRec.how ≠ 0 ∧ s.sdRec.force = SHUT_FORCE ∧ s.sdRec.uid ≠ -1 ∧
        ¬ s.conf.fifoAllowNuke) := by
      rintro ⟨h1, h2, h3, h4⟩
      rcases hc.override h1 h2 with h | h
      · exact h3 h
      · exact h4 h
    dsimp only [globalShutdown]
    rw [if_neg (not_not.mpr hallow), if_neg hnuke, if_pos hc.how]

end

/-! ## The event of a rescan -/

theorem checkShutdown_expired (hhow : s.sdRec.how ≠ 0)
    (hdue : s.sdRec.start = TO_INF ∨ s.sdRec.start ≤ s.now) (hexp : s.sdRec.timeout ≤ s.now)
    (ht : t = { s with sdRec := { s.sdRec with start := TO_INF, timeout := TO_INF } })
    (hw : wouldShutdown t = false) : checkShutdown s = cancelShutdown t := by
  subst ht
  have hnow : ¬ (s.sdRec.start ≠ TO_INF ∧ s.now < s.sdRec.start) := by
    rintro ⟨h1, h2⟩
    rcases hdue with h | h
    · exact h1 h
    · omega
  unfold checkShutdown
  rw [if_neg hhow, if_neg hnow]
  dsimp only
  rw [if_pos hexp, if_neg (by rw [hw]; exact Bool.false_ne_true)]

theorem Scans.step {force : Bool} (h : Scans s e force t) (hs : step e s = some s') :
    ∃ p, s' = (rescanConfigs force t).goto p := by
  unfold Kdm.step at hs
  split at hs
  · cases hs
  · cases h with
    | hup =>
      dsimp only at hs
      split at hs
      · cases hs; exact ⟨_, rfl⟩
      · cases hs
    | @reaped env h1 h2 =>
      dsimp only at hs
      split at hs
      · cases hs
        have hauto : (!(s.withEnv env).stopping && (s.withEnv env).conf.autoRescan) = true := by
          rw [Bool.and_eq_true, Bool.not_eq_true']
          exact ⟨h1, h2⟩
        rw [if_pos hauto]
        exact ⟨_, rfl⟩
      · cases hs
    | @expired env _ hhow hdue hexp ht hw =>
      dsimp only at hs
      split at hs
      · cases hs
        rw [checkShutdown_expired (s := s.withEnv env) hhow hdue hexp ht hw]
        exact ⟨_, rfl⟩
      · cases hs
    | @cancelled x fd line env od args r hsock hline hparse hc =>
      dsimp only at hs
      split at hs
      · rename_i cr od' _ hsock'
        cases hsock.symm.trans hsock'
        split at hs
        · cases hs
          have hc' : Cancels od r (s.withEnv env) := ⟨hc.how, hc.scope, hc.shutdown, hc.override⟩
          have hcmd : (processCtrl od line (s.withEnv env)).2 = cancelShutdown (s.withEnv env) := by
            unfold processCtrl
            rw [hline]
            exact shutdownCommand_cancels hparse hc'
          rw [hcmd]
          exact ⟨_, rfl⟩
        · cases hs
      · cases hs

/-! ## The configured displays -/

theorem NotStopped.step (h : NotStopped c s e) (hk : Keys (abs s)) (hs : step e s = some s')
    (hn : n ∈ configuredNames c) (hst : Stays n s) : Stays n s' := by
  obtain ⟨d, hd, rfl, hstays⟩ := hst
  by_cases hz : d.status = .zombie ∧ e.isChild = true
  · cases e with
    | child pid status env =>
      unfold Kdm.step at hs
      dsimp only at hs
      split at hs
      · cases hs
      · split at hs
        · cases hs
          have hkeep : Stays d.name (reapChild pid status (s.withEnv env)) :=
            reapChild_stays (s := s.withEnv env) hk hd hz.1 hstays
          exact hkeep
        · cases hs
    | _ => cases hz.2
  · exact h s' hs d hd hn hstays hz

theorem step_keys (hk : Keys (abs s)) (hs : step e s = some s') : Keys (abs s') :=
  hk.steps (step_refines hk hs)

theorem reachable_keys (h : Reachable s) : Keys (abs s) :=
  (invariant (I := fun _ => True) (C := fun _ _ => True)
    ⟨trivial, fun _ _ _ => trivial, fun _ _ _ _ => trivial, fun _ _ _ => trivial⟩
    (fun _ _ _ _ _ _ _ _ _ _ _ _ => trivial) h).1

/-- A test for `NotStopped`. -/
def notStopped (c : GlobalConf) (s : State) (e : Event) : Bool :=
  (step e s).all fun s' => s.displays.all fun d =>
    !decide (d.name ∈ configuredNames c) || !decide d.stays ||
      s'.displays.any fun d' => d'.name == d.name && decide d'.stays

theorem NotStopped.of_test (h : notStopped c s e = true) : NotStopped c s e := by
  intro s' hs d hd hn hst _
  unfold notStopped at h
  rw [hs, Option.all_some, List.all_eq_true] at h
  have hd' := h d hd
  simp only [hn, hst, decide_true, Bool.not_true, Bool.false_or] at hd'
  obtain ⟨d', hmem, hd'⟩ := List.any_eq_true.mp hd'
  rw [Bool.and_eq_true, beq_iff_eq, decide_eq_true_eq] at hd'
  exact ⟨d', hmem, hd'.1, hd'.2⟩

theorem markDisplays_env (s : State) : (forEachDisplay markDisplay s).env = s.env := by
  unfold forEachDisplay
  generalize s.displays.map Display.id = ids
  induction ids generalizing s with
  | nil => rfl
  | cons i ids ih => exact ih (markDisplay i s)

theorem scannedConf_hup {env : Env} (h : env.dmConf = .loaded c) :
    scannedConf true (forEachDisplay markDisplay (s.withEnv env)) = some c := by
  unfold scannedConf
  rw [markDisplays_env]
  show (match env.dmConf with | .loaded c => some c | .unchanged => _ | .failed _ => none) = _
  rw [h]

namespace Sample

/-- Display 0 runs a session when the configuration is read again without it; it is put back while
the session and the server are being killed. -/
def dropped : List Event :=
  pass { dpyConf := [.loaded dpyConf] } [100] 51 ++ [.signal .SIGUSR1 { sys := [5, 6, 101] }] ++
  pass {} [] 52 ++ [.dpipe 0 { rx := [6, 0, 0, 0] }] ++ pass {} [] 300 ++
  [.signal .SIGHUP { dmConf := .loaded (dmConf []) }] ++ pass {} [] 301

/-- The processes of the display end. -/
def buried : List Event :=
  pass {} [] 302 ++ [.signal .SIGCHLD {}, .child 101 ⟨15, 0, 0⟩ {}, .child 100 ⟨0, 0, 0⟩ {},
    .childrenDone, .rescan {}]

def putBack (names : List String) : Event := .signal .SIGHUP { dmConf := .loaded (dmConf names) }

end Sample

/-- A test for `ScanSafe`. -/
def scanSafe (c : GlobalConf) (s : State) : Bool :=
  ((configuredNames c).all fun n => (findDisplayByName s n).all fun d => decide d.stays) &&
    (s.env.sys.take (2 * (configuredNames c).length)).all fun x => x != 0

theorem ScanSafe.of_test (h : scanSafe c s = true) : ScanSafe c s := by
  unfold scanSafe at h
  rw [Bool.and_eq_true, List.all_eq_true, List.all_eq_true] at h
  refine ⟨fun n hn d hd => ?_, fun x hx => by simpa using h.2 x hx⟩
  have hfound := h.1 n hn
  rw [hd, Option.all_some, decide_eq_true_eq] at hfound
  exact hfound

end Kdm
