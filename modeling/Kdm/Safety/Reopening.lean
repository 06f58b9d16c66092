import Kdm.Safety.Configured

/-!
# The global control socket over a rescan

`updateCtrl` is to make a new socket when its directory or its group was changed.  It finds the
directory in the path of the socket (`ctrlDir_ctrlPath`), and compares the configured group with
one that the record of the socket has from its initializer (`reachable_gid`).

Principal result: `updateCtrl_kept_iff`, for which group the socket is left alone.
-/

namespace Kdm

open Runs

variable {s s' t : State} {e : Event} {a b : Abs} {x : Act} {force : Bool}

/-! ## The record of the socket -/

theorem dropWhile_slash {name : List Char} (h : '/' ∉ name) (r : List Char) :
    (name ++ '/' :: r).dropWhile (· ≠ '/') = '/' :: r := by
  induction name with
  | nil => rfl
  | cons c name ih =>
    have hc : c ≠ '/' := fun he => h (he ▸ List.mem_cons_self)
    rw [List.cons_append, List.dropWhile_cons_of_pos (by simpa using hc)]
    exact ih fun hm => h (List.mem_cons_of_mem _ hm)

/-- The directory is what `updateCtrl` cuts out of the path. -/
theorem ctrlDir_ctrlPath (fifoDir : List Char) : ctrlDir (some (ctrlPath fifoDir none)) = fifoDir := by
  have hrev : (ctrlPath fifoDir none).reverse =
      "tekcos".toList ++ '/' :: ("ltcmd".toList ++ '/' :: fifoDir.reverse) := by
    simp [ctrlPath]
  unfold ctrlDir
  dsimp only
  rw [hrev, dropWhile_slash (by decide), List.tail_cons, dropWhile_slash (by decide), List.tail_cons,
    List.reverse_reverse]

theorem Abs.setCtrl_gid (y : Option Id) (fd : Int) (css : List Int) (a : Abs) :
    (a.setCtrl y fd css).gid = a.gid := by
  obtain ⟨_, _, _, h⟩ := a.setCtrl_frame y fd css
  rw [h]

/-- No action writes the group. -/
theorem Step.same_gid (hs : Step x a b) : b.gid = a.gid := by
  cases x <;>
    (simp only [Step] at hs
     grind -ring -linarith -order [Abs.add, Abs.drop, Abs.set, Abs.open_, Abs.register, Abs.closeAll,
       Abs.unregisterAll, Abs.openPair, Abs.setCtrl_gid])

theorem Starts.gid : Starts fun a => a.gid = 0 where
  blank := rfl
  boot _ hs h := hs.same_gid.trans h
  signal _ _ _ h := h
  clock _ _ h := h

theorem reachable_gid (h : Reachable s) : s.ctrl.gid = 0 :=
  (invariant Starts.gid (fun _ _ _ _ _ _ _ _ _ hs _ ha => hs.same_gid.trans ha) h).2

/-! ## The state at the call -/

theorem openFd_ctrl (o : Owner) (s : State) : (s.openFd o).2.ctrl = s.ctrl := by
  rcases openFd_spec o s with ⟨env, he⟩ | ⟨fd, env, he, -, -⟩
  · rw [he]
  · rw [he]

theorem foldl_ctrl {α : Type} {g : State → α → State} (h : ∀ s y, (g s y).ctrl = s.ctrl) (l : List α)
    (s : State) : (l.foldl g s).ctrl = s.ctrl := by
  induction l generalizing s with
  | nil => rfl
  | cons y l ih => exact (ih _).trans (h s y)

theorem updateListenerAddr_ctrl (addr : String) (s : State) :
    (updateListenerAddr addr s).2.ctrl = s.ctrl := by
  unfold updateListenerAddr
  split
  · rfl
  · split
    · rfl
    · have h := openFd_ctrl .listen s
      rcases hs : s.openFd .listen with ⟨fd, s1⟩
      rw [hs] at h
      dsimp only
      split
      · exact h
      · exact h

theorem updateListener_ctrl (s : State) (addr : Option String) :
    (updateListener addr s).ctrl = s.ctrl := by
  cases addr with
  | some a => exact updateListenerAddr_ctrl a s
  | none =>
    have h := updateListenerAddr_ctrl "::" s
    unfold updateListener
    rcases hs : updateListenerAddr "::" s with ⟨ok, s1⟩
    rw [hs] at h
    dsimp only
    split
    · exact h
    · exact (updateListenerAddr_ctrl _ s1).trans h

theorem updateListenSockets_ctrl (s : State) : (updateListenSockets s).ctrl = s.ctrl := by
  have hdrop (s : State) : (dropListenSockets s).ctrl = s.ctrl :=
    foldl_ctrl (g := fun s fd => destroyListeningSocket fd s) (fun _ _ => rfl) _ _
  unfold updateListenSockets
  exact (hdrop _).trans (foldl_ctrl updateListener_ctrl _ _)

theorem malloc_ctrl (s : State) : s.malloc.2.ctrl = s.ctrl := by
  obtain ⟨env, he⟩ := malloc_env s
  rw [he]

theorem histFor_ctrl (name : String) (s : State) : (histFor name s).2.ctrl = s.ctrl := by
  unfold histFor
  split
  · rfl
  · have h := malloc_ctrl s
    rcases hs : s.malloc with ⟨ok, s1⟩
    rw [hs] at h
    dsimp only
    split
    · exact h
    · exact h

theorem newDisplay_ctrl (name : String) (s : State) : (newDisplay name s).2.ctrl = s.ctrl := by
  have h := histFor_ctrl name s
  unfold newDisplay
  rcases hs : histFor name s with ⟨ok, s1⟩
  rw [hs] at h
  dsimp only
  split
  · have h1 := malloc_ctrl s1
    rcases hs1 : s1.malloc with ⟨ok1, s2⟩
    rw [hs1] at h1
    dsimp only
    split
    · exact h1.trans h
    · exact h1.trans h
  · exact h

theorem addServer_ctrl (lifetime : Lifetime) (srv : String) (s : State) :
    (addServer lifetime srv s).2.ctrl = s.ctrl := by
  unfold addServer
  dsimp only
  split
  · rfl
  · have h := newDisplay_ctrl (serverName srv) s
    rcases hs : newDisplay (serverName srv) s with ⟨i, s1⟩
    rw [hs] at h
    cases i with
    | some i => exact h
    | none => exact h

theorem addServers_ctrl (lifetime : Lifetime) (srvs : List String) (s : State) :
    (addServers lifetime srvs s).ctrl = s.ctrl := by
  induction srvs generalizing s with
  | nil => rfl
  | cons srv srvs ih =>
    have h := addServer_ctrl lifetime srv s
    unfold addServers
    rcases hs : addServer lifetime srv s with ⟨ok, s1⟩
    rw [hs] at h
    cases ok with
    | true => exact (ih s1).trans h
    | false => exact h

theorem scanConfigs_ctrl (force : Bool) (s : State) : (scanConfigs force s).2.ctrl = s.ctrl := by
  have hload : (loadDMResources force s).2.ctrl = s.ctrl := by
    unfold loadDMResources
    split <;> rfl
  have haccess (s : State) : (scanAccessDatabase s).ctrl = s.ctrl := by
    unfold scanAccessDatabase
    split <;> rfl
  unfold scanConfigs
  rcases hs : loadDMResources force s with ⟨ret, s1⟩
  rw [hs] at hload
  dsimp only
  split
  · exact hload
  · refine (haccess _).trans ?_
    unfold scanServers
    exact ((addServers_ctrl _ _ _).trans (addServers_ctrl _ _ _)).trans hload

/-- The state in which a rescan calls `updateCtrl`. -/
def atUpdate (force : Bool) (s : State) : State := updateListenSockets (scanConfigs force s).2

theorem rescanConfigs_eq (force : Bool) (s : State) :
    rescanConfigs force s =
      if 0 < (scanConfigs force s).1 then updateCtrl (atUpdate force s) else (scanConfigs force s).2 :=
  rfl

/-- A rescan that an event makes finds the record as it was before the event. -/
theorem Scans.ctrl (h : Scans s e force t) : (atUpdate force t).ctrl = s.ctrl := by
  refine ((updateListenSockets_ctrl _).trans (scanConfigs_ctrl force t)).trans ?_
  cases h with
  | hup => exact foldl_ctrl (g := fun s i => markDisplay i s) (fun _ _ => rfl) _ _
  | reaped => rfl
  | expired _ _ _ ht => subst ht; rfl
  | cancelled => rfl

/-- The states in which `updateCtrl` is called: a reachable one, and the one that a rescan from it
has come to. -/
inductive CallsUpdate (s : State) : State → Prop
  | direct : CallsUpdate s s
  | rescan {e' : Event} {force' : Bool} {t' : State} :
    Scans s e' force' t' → CallsUpdate s (atUpdate force' t')

theorem CallsUpdate.ctrl (h : CallsUpdate s t) : t.ctrl = s.ctrl := by
  cases h with
  | direct => rfl
  | rescan hscan => exact hscan.ctrl

/-! ## Principal result -/

/-- The global socket is open, in the directory and for the group of the configuration. -/
structure OpenAsConfigured (s : State) : Prop where
  isOpen : 0 ≤ s.ctrl.fd
  path : s.ctrl.path = some (ctrlPath s.conf.fifoDir.toList none)
  group : s.ctrl.group = s.conf.fifoGroup

/-- The socket and its connections are closed, and a new socket is made. -/
def Reopens (s s' : State) : Prop :=
  ∃ u, s' = openCtrl none u ∧ u.ctrl.fd < 0 ∧ u.ctrl.css = [] ∧
    ∀ fd ∈ s.ctrl.fd :: s.ctrl.css, u.fdOwner fd = none

theorem closeCtrl_closes (h : 0 ≤ s.ctrl.fd) : Reopens s (openCtrl none (closeCtrl none s)) := by
  have habs := closeCtrl_open (x := none) (s := s) rfl h
  have hctrl := congrArg Abs.ctrl habs
  have hcss := congrArg Abs.css habs
  have htable := congrArg Abs.table habs
  refine ⟨closeCtrl none s, rfl, ?_, hcss, fun fd hfd => ?_⟩
  · have hctrl' : (closeCtrl none s).ctrl.fd = -1 := hctrl
    omega
  · refine (congrFun htable fd).trans ?_
    exact if_pos hfd

theorem closeCtrl_sys (s : State) : (closeCtrl none s).env.sys = s.env.sys := by
  have hnuke (l : List Int) (s : State) :
      (l.foldl (fun s fd => nukeFd fd s) s).env.sys = s.env.sys := by
    induction l generalizing s with
    | nil => rfl
    | cons fd l ih => exact ih _
  unfold closeCtrl
  dsimp only [ctrlOf]
  split
  · exact hnuke _ _
  · rfl

/-- A descriptor is an answer of the kernel. -/
theorem openFd_asks (o : Owner) (s : State) : (s.openFd o).1 < 0 ∨
    s.env.sys ≠ [] ∧ (s.openFd o).2.env.sys = s.env.sys.tail := by
  unfold State.openFd State.answer
  cases s.env.sys with
  | nil => exact .inl (by simp)
  | cons y ys =>
    right
    dsimp only
    split <;> exact ⟨List.cons_ne_nil _ _, rfl⟩

theorem openCtrl_asks (s : State) : (openCtrl none s).ctrl.fd = s.ctrl.fd ∨
    s.env.sys ≠ [] ∧ (openCtrl none s).env.sys = s.env.sys.tail := by
  unfold openCtrl
  split
  · exact .inl rfl
  · dsimp only [ctrlOf]
    split
    · have hctrl := openFd_ctrl (.ctrl none) s
      have hasks := openFd_asks (.ctrl none) s
      rcases hs : s.openFd (.ctrl none) with ⟨fd, s1⟩
      rw [hs] at hctrl hasks
      dsimp only at hctrl hasks ⊢
      split
      · exact .inl (congrArg CtrlRec.fd hctrl)
      · rename_i hfd
        exact .inr (hasks.resolve_left hfd)
    · exact .inl rfl

/-- With a new socket the state is not the old one. -/
theorem openCtrl_ne (h : 0 ≤ s.ctrl.fd) : openCtrl none (closeCtrl none s) ≠ s := by
  have hclosed : (closeCtrl none s).ctrl.fd = -1 :=
    congrArg Abs.ctrl (closeCtrl_open (x := none) (s := s) rfl h)
  have henv := closeCtrl_sys s
  generalize closeCtrl none s = u at hclosed henv
  rcases openCtrl_asks u with he | ⟨hne, hsys⟩
  · intro hs
    rw [← hs, he, hclosed] at h
    omega
  · intro hs
    rw [hs, ← henv] at hsys
    have hlen := congrArg List.length hsys
    rw [List.length_tail] at hlen
    have hpos := List.length_pos_iff.mpr hne
    omega

theorem updateCtrl_kept (h : Reachable s) (hcall : CallsUpdate s t) (ho : OpenAsConfigured t)
    (hg : t.conf.fifoGroup = 0) : updateCtrl t = t := by
  refine if_neg ?_
  rintro (h1 | h1)
  · exact h1 (by rw [ho.path, ctrlDir_ctrlPath])
  · exact h1 (by rw [hcall.ctrl, reachable_gid h, hg])

/-- With a socket for the group 0 an event that rescans keeps the record as it was. -/
theorem rescan_keeps_ctrl (h : Reachable s) (hscan : Scans s e force t) (hs : step e s = some s')
    (ho : OpenAsConfigured (atUpdate force t)) (hg : (atUpdate force t).conf.fifoGroup = 0) :
    s'.ctrl = s.ctrl := by
  obtain ⟨p, rfl⟩ := hscan.step hs
  change (rescanConfigs force t).ctrl = s.ctrl
  rw [rescanConfigs_eq]
  split
  · rw [updateCtrl_kept h (.rescan hscan) ho hg]
    exact hscan.ctrl
  · rw [← updateListenSockets_ctrl]
    exact hscan.ctrl

/-- **Rescans**: with an unchanged directory and group nothing is done to the socket if and only
if the group is the one in the initializer of the record; for another group the socket and all
connections are closed. -/
theorem updateCtrl_kept_iff (h : Reachable s) (hcall : CallsUpdate s t) (ho : OpenAsConfigured t) :
    (updateCtrl t = t ↔ t.conf.fifoGroup = 0) ∧
      (t.conf.fifoGroup ≠ 0 → Reopens t (updateCtrl t)) := by
  have hgid : t.ctrl.gid = 0 := by rw [hcall.ctrl, reachable_gid h]
  have hreopen (hg : t.conf.fifoGroup ≠ 0) : updateCtrl t = openCtrl none (closeCtrl none t) :=
    if_pos (.inr fun he => hg (he.symm.trans hgid))
  refine ⟨⟨fun he => ?_, updateCtrl_kept h hcall ho⟩, fun hg => ?_⟩
  · by_contra hg
    exact openCtrl_ne ho.isOpen ((hreopen hg).symm.trans he)
  · rw [hreopen hg]
    exact closeCtrl_closes ho.isOpen

namespace Sample

/-- One reserve display; the control socket belongs to a group. -/
def groupConf (group : Int) : GlobalConf :=
  { dmConf [] with
    reserveServers := [":0"], fifoDir := "/run/xdmctl", fifoGroup := group, fifoAllowShutdown := true }

def groupEnv (group : Int) : Env := { dmConf := .loaded (groupConf group), sys := [1, 1, 3, 4] }

/-- Somebody connects to the control socket, and the loop comes round to it again. -/
def connected : List Event :=
  pass {} [] 51 ++ [.accept none { sys := [5, 1] }, .idle] ++ pass {} [] 52

end Sample

instance (s : State) : Decidable (OpenAsConfigured s) :=
  decidable_of_iff (0 ≤ s.ctrl.fd ∧ s.ctrl.path = some (ctrlPath s.conf.fifoDir.toList none) ∧
    s.ctrl.group = s.conf.fifoGroup) ⟨fun h => ⟨h.1, h.2.1, h.2.2⟩, fun h => ⟨h.1, h.2, h.3⟩⟩

/-- A socket of the group 0 is left alone. -/
theorem updateCtrl_kept_root : ∃ s : State, 5 ∈ s.ctrl.css ∧ updateCtrl s = s := by
  obtain ⟨s, hs, hp⟩ := reachable_of_run (C := fun _ _ => True) anyEvent (Sample.groupEnv 0) 50
    Sample.connected (fun s => decide (OpenAsConfigured s ∧ 5 ∈ s.ctrl.css ∧ s.conf.fifoGroup = 0))
    (fun _ _ _ => trivial) (by decide)
  obtain ⟨ho, hcss, hg⟩ := of_decide_eq_true hp
  exact ⟨s, hcss, (updateCtrl_kept_iff hs .direct ho).1.mpr hg⟩

/-- Taking back a shutdown closes the connection that the command came from. -/
theorem not_updateCtrl_kept : ∃ s s' env, Reachable s ∧ OpenAsConfigured s ∧ 5 ∈ s.ctrl.css ∧
    step (.command none 5 "shutdown\tcancel" env) s = some s' ∧ s'.conf = s.conf ∧
    s'.fdOwner 5 = none := by
  obtain ⟨s, hs, hp⟩ := reachable_of_run (C := fun _ _ => True) anyEvent (Sample.groupEnv 7) 50
    Sample.connected (fun s => decide (OpenAsConfigured s ∧ 5 ∈ s.ctrl.css) &&
      (step (.command none 5 "shutdown\tcancel" { sys := [4] }) s).any fun s' : State =>
        decide (s'.conf = s.conf ∧ s'.fdOwner 5 = none))
    (fun _ _ _ => trivial) (by decide)
  rw [Bool.and_eq_true, Option.any_eq_true] at hp
  obtain ⟨ho, s', hs', hlost⟩ := hp
  obtain ⟨ho, hcss⟩ := of_decide_eq_true ho
  obtain ⟨hconf, hlost⟩ := of_decide_eq_true hlost
  exact ⟨s, s', _, hs, ho, hcss, hs', hconf, hlost⟩

end Kdm
