import Kdm.Refine.Stop

/-!
# Control sockets, pipes and session starts refine the model

The code opens the control socket before it knows whether the session can be forked, and
closes it again if not.  In the model the socket belongs to the session, so a session start is
one action that is followed by the opening of the socket, and a failed start leaves at most
descriptors behind that are closed.
-/

namespace Kdm

open Runs

variable {P : Act → Abs → Prop} {s : State} {a b : Abs} {i : Id} {d : Display} {v w : View}
  {x : Option Id} {fd : Int} {cr : CtrlRec} {o : Owner} {l m : List Int}

/-! ## Descriptors in the model -/

namespace Abs

theorem set_open (a : Abs) : (a.open_ fd o).set i v = (a.set i v).open_ fd o := rfl

theorem setCtrl_open (a : Abs) (css : List Int) {y : Int} :
    (a.open_ y o).setCtrl x fd css = (a.setCtrl x fd css).open_ y o := by
  cases x with
  | none => rfl
  | some i => cases h : a.disp i <;> simp [setCtrl, open_, h, set]

theorem closeAll_append (a : Abs) : (a.closeAll l).closeAll m = a.closeAll (l ++ m) := by
  unfold closeAll
  simp only [mk.injEq, true_and, and_true]
  funext y
  by_cases h1 : y ∈ l <;> by_cases h2 : y ∈ m <;> simp [h1, h2]

theorem unregisterAll_append (a : Abs) :
    (a.unregisterAll l).unregisterAll m = a.unregisterAll (l ++ m) := by
  unfold unregisterAll
  simp only [mk.injEq, true_and, and_true]
  ext y
  simp [and_assoc]

/-- A descriptor that was opened and closed again. -/
theorem open_close (h : a.table fd = none) : (a.open_ fd o).closeAll [fd] = a := by
  unfold open_ closeAll
  have : (fun y => if y ∈ [fd] then none else Function.update a.table fd (some o) y) = a.table := by
    funext y
    by_cases hy : y = fd
    · subst hy; simp [h]
    · simp [hy]
  simp only [this]

end Abs

/-! ## Control sockets -/

theorem abs_ctrlOf (x : Option Id) (s : State) :
    (abs s).ctrlOf x = (ctrlOf s x).map fun c => (c.fd, c.css) := by
  cases x with
  | none => rfl
  | some i =>
    unfold Abs.ctrlOf ctrlOf abs
    simp only [Option.map_map]
    rfl

theorem abs_ctrlOf_some (h : ctrlOf s x = some cr) : (abs s).ctrlOf x = some (cr.fd, cr.css) := by
  rw [abs_ctrlOf, h]; rfl

theorem abs_setCtrl (h : ctrlOf s x = some cr) {f : CtrlRec → CtrlRec}
    (hf : ∀ cr, (f cr).gid = cr.gid) :
    abs (setCtrl x f s) = (abs s).setCtrl x (f cr).fd (f cr).css := by
  cases x with
  | none =>
    cases h
    unfold setCtrl abs Abs.setCtrl
    simp only [hf]
    rfl
  | some i =>
    obtain ⟨d, hd, rfl⟩ := Option.map_eq_some_iff.mp h
    rw [Abs.setCtrl_some _ _ _ (abs_disp hd)]
    exact abs_modify hd fun _ => rfl

theorem ctrlOf_setCtrl (h : ctrlOf s x = some cr) (f : CtrlRec → CtrlRec) :
    ctrlOf (setCtrl x f s) x = some (f cr) := by
  cases x with
  | none => cases h; rfl
  | some i =>
    obtain ⟨d, hd, rfl⟩ := Option.map_eq_some_iff.mp h
    show (State.find (s.modify i fun d => { d with ctrl := f d.ctrl }) i).map Display.ctrl = _
    rw [find_modify_self hd (by intro; rfl)]
    rfl

/-- A loop that closes the descriptors of a list. -/
theorem abs_closeEach {g : Int → State → State}
    (hg : ∀ fd s, abs (g fd s) = ((abs s).closeAll [fd]).unregisterAll [fd]) (l : List Int)
    (s : State) :
    abs (l.foldl (fun s fd => g fd s) s) = ((abs s).closeAll l).unregisterAll l := by
  induction l generalizing s with
  | nil => simp [Abs.closeAll, Abs.unregisterAll]
  | cons fd l ih =>
    rw [List.foldl_cons, ih, hg]
    have h1 := Abs.closeAll_append (l := [fd]) (m := l) ((abs s).unregisterAll [fd])
    refine Eq.trans (congrArg (Abs.unregisterAll l) h1) ?_
    exact Abs.unregisterAll_append (l := [fd]) (m := l) ((abs s).closeAll ([fd] ++ l))

theorem abs_nukeFd (fd : Int) (s : State) :
    abs (nukeFd fd s) = ((abs s).closeAll [fd]).unregisterAll [fd] := by
  unfold nukeFd
  rw [abs_close, abs_unregisterInput]
  rfl

theorem ctrlOf_nukeAll (l : List Int) (s : State) :
    ctrlOf (l.foldl (fun s fd => nukeFd fd s) s) x = ctrlOf s x := by
  induction l generalizing s with
  | nil => rfl
  | cons fd l ih => rw [List.foldl_cons, ih]; cases x <;> rfl

/-- What `openCtrl` may do. -/
theorem openCtrl_spec (x : Option Id) (s : State) :
    abs (openCtrl x s) = abs s ∨ ∃ cr fd, ctrlOf s x = some cr ∧ cr.fd < 0 ∧ 0 ≤ fd ∧
      (abs s).table fd = none ∧
      abs (openCtrl x s) = (((abs s).setCtrl x fd cr.css).open_ fd (.ctrl x)).register fd := by
  unfold openCtrl
  split
  · exact .inl rfl
  · split
    · exact .inl rfl
    · rename_i cr hc
      split
      · rename_i hlt
        rcases openFd_spec (.ctrl x) s with ⟨env, he⟩ | ⟨fd, env, he, hfd, ht⟩
        · rw [he]; exact .inl rfl
        · rw [he]
          right
          refine ⟨cr, fd, hc, hlt, hfd, ht, ?_⟩
          dsimp only
          rw [if_neg (by omega), abs_registerInput]
          have hc' : ctrlOf { s with env := env, fds := (fd, .ctrl x) :: s.fds } x = some cr := by
            cases x <;> exact hc
          rw [abs_setCtrl hc', abs_open, Abs.setCtrl_open]
          exact fun _ => rfl
      · exact .inl rfl

theorem openCtrl_steps (hP : Ordinary P) (s : State) : Steps P (abs s) (abs (openCtrl none s)) := by
  rcases openCtrl_spec none s with he | ⟨cr, fd, hc, hlt, hfd, ht, he⟩
  · rw [he]; exact Path.nil _
  · exact Path.one (.openCtrl none fd) (hP _ _ rfl)
      ⟨_, abs_ctrlOf_some hc, hlt, hfd, ht, (by simp), he⟩

theorem closeCtrl_closed (h : ctrlOf s x = some cr) (hlt : cr.fd < 0) : closeCtrl x s = s := by
  unfold closeCtrl
  rw [h]
  exact if_neg (by omega)

theorem closeCtrl_open (h : ctrlOf s x = some cr) (hle : 0 ≤ cr.fd) :
    abs (closeCtrl x s) = (((abs s).setCtrl x (-1) []).closeAll (cr.fd :: cr.css)).unregisterAll
      (cr.fd :: cr.css) := by
  unfold closeCtrl
  rw [h]
  dsimp only
  rw [if_pos hle]
  have h1 : ctrlOf ((s.unregisterInput cr.fd).close cr.fd) x = some cr := by cases x <;> exact h
  have h2 := ctrlOf_setCtrl h1 fun cr => { cr with fd := -1, path := none }
  have h3 := (ctrlOf_nukeAll (x := x) cr.css _).trans h2
  have hf1 : ∀ cr : CtrlRec, { cr with fd := -1, path := none }.gid = cr.gid := fun _ => rfl
  have hf3 : ∀ cr : CtrlRec, { cr with css := [] }.gid = cr.gid := fun _ => rfl
  rw [abs_setCtrl h3 hf3, abs_closeEach abs_nukeFd, abs_setCtrl h1 hf1, abs_close,
    abs_unregisterInput]
  have h4 := abs_ctrlOf_some h
  cases x with
  | none =>
    simp only [Abs.setCtrl, Abs.closeAll, Abs.unregisterAll, Abs.mk.injEq, true_and, and_true]
    refine ⟨?_, ?_⟩
    · ext y; simp [and_assoc]
    · funext y
      by_cases hy1 : y = cr.fd <;> by_cases hy2 : y ∈ cr.css <;> simp [hy1, hy2]
  | some i =>
    obtain ⟨d, hd, rfl⟩ := Option.map_eq_some_iff.mp h
    have hv := abs_disp hd
    simp only [Abs.setCtrl, Abs.set, Abs.closeAll, Abs.unregisterAll, hv, Function.update_self,
      Function.update_idem, Abs.mk.injEq, true_and, and_true]
    refine ⟨?_, ?_⟩
    · ext y; simp [and_assoc]
    · funext y
      by_cases hy1 : y = d.ctrl.fd <;> by_cases hy2 : y ∈ d.ctrl.css <;> simp [hy1, hy2]

theorem closeCtrl_steps (hP : Ordinary P) (x : Option Id) (s : State) :
    Steps P (abs s) (abs (closeCtrl x s)) := by
  cases h : ctrlOf s x with
  | none => unfold closeCtrl; rw [h]; exact Path.nil _
  | some cr =>
    by_cases hlt : cr.fd < 0
    · rw [closeCtrl_closed h hlt]; exact Path.nil _
    · have hle : 0 ≤ cr.fd := by omega
      refine Path.one (.closeCtrl x) (hP _ _ rfl) ⟨_, abs_ctrlOf_some h, ?_⟩
      rw [closeCtrl_open h hle]
      simp [ctrlFds, hle]

theorem acceptSock_steps (hP : Ordinary P) (h : ctrlOf s x = some cr) (hle : 0 ≤ cr.fd) :
    Steps P (abs s) (abs (acceptSock x s)) := by
  unfold acceptSock
  rcases openFd_spec (.conn x) s with ⟨env, he⟩ | ⟨fd, env, he, hfd, ht⟩
  · rw [he]; exact Path.nil _
  · rw [he]
    dsimp only
    rw [if_neg (by omega)]
    generalize hs1 : ({ s with env := env, fds := (fd, .conn x) :: s.fds } : State) = s1
    have h1 : ctrlOf s1 x = some cr := by subst hs1; cases x <;> exact h
    have ha1 : abs s1 = (abs s).open_ fd (.conn x) := by subst hs1; exact abs_open fd _ env
    rcases hm : s1.malloc with ⟨ok, s2⟩
    have ha2 : abs s2 = abs s1 := abs_of_malloc hm
    have h2 : ctrlOf s2 x = some cr := by
      obtain ⟨env, he⟩ := malloc_env s1
      rw [hm] at he
      rw [show s2 = _ from he]
      cases x <;> exact h1
    dsimp only
    split
    · refine Path.one (.accept x fd) (hP _ _ rfl) ⟨_, abs_ctrlOf_some h, hle, hfd, ht, ?_⟩
      rw [abs_registerInput, abs_setCtrl h2, ha2, ha1, Abs.setCtrl_open]
      exact fun _ => rfl
    · refine Path.of_eq ?_
      rw [abs_close, ha2, ha1]
      exact (Abs.open_close ht).symm

theorem dropSock_steps (hP : Ordinary P) (h : ctrlOf s x = some cr) (hfd : fd ∈ cr.css) :
    Steps P (abs s) (abs (dropSock x fd s)) := by
  refine Path.one (.nuke x fd) (hP _ _ rfl) ⟨_, abs_ctrlOf_some h, hfd, ?_⟩
  unfold dropSock
  rw [abs_nukeFd, abs_setCtrl h]
  exact fun _ => rfl

/-! ## Pipes -/

def View.pipeFd (v : View) : Pipe → Int
  | .pipe => v.pipe
  | .gpipe => v.gpipe

def View.closePipe (v : View) : Pipe → View
  | .pipe => { v with pipe := -1 }
  | .gpipe => { v with gpipe := -1 }

theorem gClosen_closed {p : Pipe} (hd : s.find i = some d) (hp : d.pipeFd p = -1) :
    gClosen p i s = s := by
  unfold gClosen
  rw [withDisplay_some hd, if_pos hp]

theorem gClosen_open {p : Pipe} (hd : s.find i = some d) (hp : d.pipeFd p ≠ -1) :
    abs (gClosen p i s) = ((abs s).set i ((viewOf d).closePipe p)).closeAll [d.pipeFd p] := by
  unfold gClosen
  rw [withDisplay_some hd, if_neg hp]
  have hd1 : (s.close (d.pipeFd p)).find i = some d := hd
  rw [abs_modify hd1 (by intro d; cases p <;> rfl), abs_close]
  cases p <;> rfl

/-- What `gFork` may do. -/
theorem gFork_spec (hd : s.find i = some d) :
    (∃ pid p g, (gFork i s).1 = pid ∧ pid ≠ -1 ∧ (abs s).freshPair p g ∧
      (∃ d', (gFork i s).2.find i = some d' ∧ d'.pipe = p ∧ d'.gpipe = g) ∧
      abs (gFork i s).2 = (((abs s).open_ p (.pipe i)).open_ g (.gpipe i)).set i
        { viewOf d with pid := pid, pipe := p, gpipe := g }) ∨
    ((gFork i s).1 = -1 ∧ ∃ pid, (pid = d.pid ∨ pid = -1) ∧
      abs (gFork i s).2 = (abs s).set i { viewOf d with pid := pid }) := by
  have hself : (abs s).set i { viewOf d with pid := d.pid } = abs s :=
    Abs.set_eq_self (abs_disp hd)
  unfold gFork
  rcases openFd_spec (.pipe i) s with ⟨env, he⟩ | ⟨p, env, he, hp, htp⟩
  · rw [he]
    exact .inr ⟨rfl, d.pid, .inl rfl, hself.symm⟩
  · rw [he]
    dsimp only
    rw [if_neg (by omega)]
    have ha1 := abs_open (s := s) p (.pipe i) env
    generalize hs1 : ({ s with env := env, fds := (p, .pipe i) :: s.fds } : State) = s1 at ha1 ⊢
    have hd1 : s1.find i = some d := by subst hs1; exact hd
    rcases openFd_spec (.gpipe i) s1 with ⟨env', he'⟩ | ⟨g, env', he', hg, htg⟩
    · rw [he']
      refine .inr ⟨rfl, d.pid, .inl rfl, ?_⟩
      rw [hself]
      show abs (State.close p { s1 with env := env' }) = _
      rw [abs_close]
      show (abs s1).closeAll [p] = _
      rw [ha1, Abs.open_close htp]
    · rw [he']
      dsimp only
      rw [if_neg (by omega)]
      have ha2 := abs_open (s := s1) g (.gpipe i) env'
      generalize hs2 : ({ s1 with env := env', fds := (g, .gpipe i) :: s1.fds } : State) = s2 at ha2 ⊢
      have hd2 : s2.find i = some d := by subst hs2; exact hd1
      have htg' : ((abs s).open_ p (.pipe i)).table g = none := by rw [← ha1]; exact htg
      have hpg : p ≠ g := by
        rintro rfl
        simp [Abs.open_] at htg'
      have hfresh : (abs s).freshPair p g := by
        refine ⟨hp, hg, hpg, htp, ?_⟩
        simpa [Abs.open_, Ne.symm hpg] using htg'
      rcases hf : s2.fork with ⟨pid, s3⟩
      have ha3 : abs s3 = abs s2 := abs_of_fork hf
      have hd3 := (find_of_fork hf).trans hd2
      have hd4 : (s3.setPid i pid).find i = some { d with pid := pid } := find_modify_self hd3 fun _ => rfl
      have ha4 := abs_setPid hd3 pid
      dsimp only
      split
      · rename_i hpid
        refine .inr ⟨rfl, -1, .inr rfl, ?_⟩
        rw [abs_close, abs_close, ha4, ha3, ha2, ha1, hpid]
        rw [Abs.set_open, Abs.set_open]
        have h5 := Abs.closeAll_append (l := [p]) (m := [g])
          ((((abs s).set i { viewOf d with pid := -1 }).open_ p (.pipe i)).open_ g (.gpipe i))
        rw [h5]
        unfold Abs.closeAll Abs.open_ Abs.set
        simp only [Abs.mk.injEq, true_and, and_true]
        funext y
        by_cases hy1 : y = p
        · simp [hy1, hfresh.2.2.2.1]
        · by_cases hy2 : y = g
          · simp [hy2, hfresh.2.2.2.2]
          · simp [hy1, hy2]
      · rename_i hpid
        refine .inl ⟨pid, p, g, rfl, hpid, hfresh, ?_, ?_⟩
        · exact ⟨{ d with pid := pid, pipe := p, gpipe := g }, find_modify_self hd4 (fun _ => rfl), rfl, rfl⟩
        · rw [abs_modify hd4 (by intro; rfl), ha4, ha3, ha2, ha1, Abs.set_set]
          rfl

/-! ## Session starts -/

theorem ctrlOf_display (hd : s.find i = some d) : ctrlOf s (some i) = some d.ctrl := by
  show (s.find i).map Display.ctrl = _
  rw [hd]
  rfl

/-- `openCtrl` for a display. -/
theorem openCtrl_display (hd : s.find i = some d) :
    abs (openCtrl (some i) s) = abs s ∨ ∃ c, d.ctrl.fd < 0 ∧ 0 ≤ c ∧ (abs s).table c = none ∧
      abs (openCtrl (some i) s) =
        (((abs s).set i { viewOf d with ctrl := c }).open_ c (.ctrl (some i))).register c := by
  rcases openCtrl_spec (some i) s with he | ⟨cr, c, hc, hlt, hle, ht, he⟩
  · exact .inl he
  · rw [ctrlOf_display hd] at hc
    cases hc
    rw [Abs.setCtrl_some _ _ _ (abs_disp hd)] at he
    exact .inr ⟨c, hlt, hle, ht, he⟩

theorem Abs.set_openPair {p g : Int} (a : Abs) :
    ((((a.open_ p (.pipe i)).open_ g (.gpipe i)).set i w).register p).register g =
      (a.openPair i p g).set i w := rfl

/-- A session with its control socket opened before it (in the code) and after it. -/
theorem Abs.openCtrl_openPair {p g c : Int} (a : Abs) (hp : p ≠ c) (hg : g ≠ c) :
    (((((((a.set i v).open_ c (.ctrl (some i))).register c).open_ p (.pipe i)).open_ g
      (.gpipe i)).set i w).register p).register g =
    (((a.openPair i p g).set i w).open_ c (.ctrl (some i))).register c := by
  unfold Abs.set Abs.openPair Abs.open_ Abs.register
  simp only [Function.update_idem, Abs.mk.injEq, true_and, and_true]
  refine ⟨?_, ?_⟩
  · rw [Set.insert_comm p c, Set.insert_comm g c]
  · rw [Function.update_comm (Ne.symm hp), Function.update_comm (Ne.symm hg)]

/-- A control socket that was opened and closed again. -/
theorem Abs.openCtrl_closeCtrl {c : Int} (a : Abs) (hc : a.table c = none) (css : List Int) :
    ((((a.set i v).open_ c o).register c).set i w |>.closeAll (c :: css)).unregisterAll (c :: css) =
      (((a.set i w).closeAll css).unregisterAll css).unregisterAll [c] := by
  unfold Abs.set Abs.open_ Abs.register Abs.closeAll Abs.unregisterAll
  simp only [Function.update_idem, Abs.mk.injEq, true_and, and_true]
  refine ⟨?_, ?_⟩
  · ext y
    simp only [Set.mem_ofPred_eq, Set.mem_insert_iff, List.mem_cons, List.not_mem_nil, or_false]
    tauto
  · funext y
    by_cases hy : y = c
    · simp [hy, hc]
    · simp [hy]

theorem abs_sessionForked (hd : s.find i = some d) :
    abs (sessionForked i s) = (((abs s).register d.pipe).register d.gpipe).set i
      { viewOf d with sd := { d.sdRec with how := 0 } } := by
  unfold sessionForked
  rw [withDisplay_some hd]
  dsimp only
  refine Eq.trans (abs_modify hd (fun _ => rfl)) ?_
  rw [abs_modifyHist, abs_registerInput, abs_registerInput]
  rfl

/-- A session that could not be forked: the control socket is closed again. -/
theorem sessionFailed_steps (hP : Ordinary P) {s1 s2 : State} {pid : Int}
    (hd : s.find i = some d)
    (h1 : abs s1 = abs s ∨ ∃ c, d.ctrl.fd < 0 ∧ 0 ≤ c ∧ (abs s).table c = none ∧
      abs s1 = (((abs s).set i { viewOf d with ctrl := c }).open_ c (.ctrl (some i))).register c)
    (h2 : ∀ v, (abs s1).disp i = some v → abs s2 = (abs s1).set i { v with pid := pid }) :
    Steps P ((abs s).set i { viewOf d with status := .notRunning, pid := pid })
      (abs ((closeCtrl (some i) s2).setStatus i .notRunning)) := by
  have hv := abs_disp hd
  have hfd : (viewOf d).ctrl = d.ctrl.fd := rfl
  generalize hw : viewOf d = w at *
  -- whatever `closeCtrl` does, it keeps the display
  have hclose {d2 : Display} (hd2 : s2.find i = some d2) (hle : 0 ≤ d2.ctrl.fd) :
      abs ((closeCtrl (some i) s2).setStatus i .notRunning) =
        (((abs s2).set i { viewOf d2 with status := .notRunning, ctrl := -1, css := [] }).closeAll
          (d2.ctrl.fd :: d2.ctrl.css)).unregisterAll (d2.ctrl.fd :: d2.ctrl.css) := by
    have h3 := closeCtrl_open (ctrlOf_display hd2) hle
    rw [Abs.setCtrl_some _ _ _ (abs_disp hd2)] at h3
    have hv3 : (abs (closeCtrl (some i) s2)).disp i =
        some { viewOf d2 with ctrl := -1, css := [] } := by
      rw [h3]
      simp [Abs.unregisterAll, Abs.closeAll, Abs.set]
    obtain ⟨d3, hd3, hv3⟩ := find_of_disp hv3
    rw [abs_setStatus hd3, ← hv3, h3]
    simp [Abs.unregisterAll, Abs.closeAll, Abs.set]
  rcases h1 with h1 | ⟨c, hlt, hle, ht, h1⟩
  · have h2 := h2 w (by rw [h1]; exact hv)
    rw [h1] at h2
    have hv2 : (abs s2).disp i = some { w with pid := pid } := by rw [h2]; simp
    obtain ⟨d2, hd2, hv2⟩ := find_of_disp hv2
    have hc2 : w.ctrl = d2.ctrl.fd ∧ w.css = d2.ctrl.css :=
      ⟨congrArg View.ctrl hv2, congrArg View.css hv2⟩
    by_cases hlt : d2.ctrl.fd < 0
    · rw [closeCtrl_closed (ctrlOf_display hd2) hlt, abs_setStatus hd2, ← hv2, h2, Abs.set_set]
      exact Path.nil _
    · have hle : 0 ≤ d2.ctrl.fd := by omega
      rw [hclose hd2 hle, ← hv2, h2, ← hc2.1, ← hc2.2]
      refine Path.one (.closeCtrl (some i)) (hP _ _ rfl) ⟨(w.ctrl, w.css), by simp [Abs.ctrlOf], ?_⟩
      rw [Abs.setCtrl_some (v := { w with status := .notRunning, pid := pid }) _ _ _ (by simp)]
      simp only [ctrlFds, hc2.1, if_pos hle, Abs.set_set]
  · have h2 := h2 { w with ctrl := c } (by rw [h1]; simp [Abs.register, Abs.open_, Abs.set])
    have hv2 : (abs s2).disp i = some { w with ctrl := c, pid := pid } := by rw [h2]; simp
    obtain ⟨d2, hd2, hv2⟩ := find_of_disp hv2
    have hc2 : c = d2.ctrl.fd ∧ w.css = d2.ctrl.css :=
      ⟨congrArg View.ctrl hv2, congrArg View.css hv2⟩
    rw [hclose hd2 (by omega), ← hv2, h2, h1, ← hc2.1, ← hc2.2]
    refine Runs.Path.trans (Path.one (.closeCtrl (some i)) (hP _ _ rfl)
      ⟨(w.ctrl, w.css), by simp [Abs.ctrlOf], rfl⟩) (Path.one (.unregister c) (hP _ _ rfl) ?_)
    rw [Abs.setCtrl_some (v := { w with status := .notRunning, pid := pid }) _ _ _ (by simp)]
    have hlt' : ¬ 0 ≤ w.ctrl := by omega
    simp only [ctrlFds, if_neg hlt', Abs.set_set]
    exact Abs.openCtrl_closeCtrl (abs s) ht w.css

/-- **`startDisplayP2`**; what the model does for the new session, or when there is none, is
left to the caller. -/
theorem startDisplayP2_steps (hP : Ordinary P) {s0 : State} (hd : s.find i = some d)
    (h0 : s0 = s.log (.startDisplayP2 i d.status))
    (hgo : ∀ pid p g, pid ≠ -1 → (abs s0).freshPair p g → Steps P a
      (((abs s0).openPair i p g).set i { viewOf d with pid := pid, pipe := p, gpipe := g }))
    (hfail : (gFork i (openCtrl (some i) s0)).1 = -1 → ∀ pid, (pid = d.pid ∨ pid = -1) →
      Steps P a ((abs s0).set i { viewOf d with status := .notRunning, pid := pid })) :
    Steps P a (abs (startDisplayP2 i s)) := by
  unfold startDisplayP2
  rw [withDisplay_some hd]
  dsimp only
  rw [← h0]
  have hd0 : s0.find i = some d := by rw [h0]; exact hd
  have hv0 := abs_disp hd0
  have hctrl := openCtrl_display hd0
  generalize openCtrl (some i) s0 = s1 at hctrl hfail ⊢
  rcases hf : gFork i s1 with ⟨pid, s2⟩
  dsimp only
  -- the display after `openCtrl`, whose control socket may be open now
  obtain ⟨c, hv1⟩ : ∃ c, (abs s1).disp i = some { viewOf d with ctrl := c } := by
    rcases hctrl with he | ⟨c, -, -, -, he⟩
    · exact ⟨d.ctrl.fd, by rw [he]; exact hv0⟩
    · exact ⟨c, by rw [he]; simp [Abs.register, Abs.open_, Abs.set]⟩
  obtain ⟨d1, hd1, hv1⟩ := find_of_disp hv1
  have hspec := gFork_spec hd1
  rw [hf] at hspec
  split
  · rename_i hpid
    rcases hspec with ⟨_, _, _, rfl, hne, -⟩ | ⟨-, pid', hor, h2⟩
    · exact absurd hpid hne
    · have hor' : pid' = d.pid ∨ pid' = -1 := by
        rcases hor with h | h
        · exact .inl (h.trans (congrArg View.pid hv1).symm)
        · exact .inr h
      refine (hfail (by rw [hf]; exact hpid) pid' hor').trans (sessionFailed_steps hP hd0 hctrl ?_)
      intro v hv
      rw [abs_disp hd1] at hv
      rw [← Option.some.inj hv]
      exact h2
  · rename_i hpid
    rcases hspec with ⟨_, p, g, rfl, -, hfresh, ⟨d2, hd2, rfl, rfl⟩, h2⟩ | ⟨h, -⟩
    · dsimp only at hd2 h2 hpid ⊢
      have hv2 := abs_disp hd2
      rw [h2, Abs.set_disp, if_pos rfl] at hv2
      have hv2 := Option.some.inj hv2
      have hsd : d2.sdRec = d.sdRec :=
        (congrArg View.sd hv2).symm.trans (congrArg View.sd hv1).symm
      rw [abs_sessionForked hd2, h2, ← hv2, hsd]
      rcases hctrl with he | ⟨c, hlt, hle, ht, he⟩
      · rw [he] at hfresh ⊢
        have hv1' : viewOf d = viewOf d1 := by
          rw [← he, abs_disp hd1] at hv0
          exact (Option.some.inj hv0).symm
        rw [← hv1']
        refine (hgo pid d2.pipe d2.gpipe hpid hfresh).then (.dropSd i) (hP _ _ rfl)
          ⟨_, { d.sdRec with how := 0 }, by rw [Abs.set_disp, if_pos rfl], rfl, ?_⟩
        rw [Abs.set_openPair, Abs.set_set]
      · have hv1' : { viewOf d with ctrl := c } = viewOf d1 := by
          have := abs_disp hd1
          rw [he] at this
          simpa [Abs.register, Abs.open_, Abs.set] using this
        rw [he] at hfresh ⊢
        obtain ⟨hp, hg, hpg, htp, htg⟩ := hfresh
        have hpc : d2.pipe ≠ c := by rintro h; rw [h] at htp; simp [Abs.register, Abs.open_] at htp
        have hgc : d2.gpipe ≠ c := by rintro h; rw [h] at htg; simp [Abs.register, Abs.open_] at htg
        have htp' : (abs s0).table d2.pipe = none := by
          simpa [Abs.register, Abs.open_, Abs.set, hpc] using htp
        have htg' : (abs s0).table d2.gpipe = none := by
          simpa [Abs.register, Abs.open_, Abs.set, hgc] using htg
        rw [Abs.openCtrl_openPair _ hpc hgc, ← hv1']
        have htc : ((abs s0).openPair i d2.pipe d2.gpipe).table c = none := by
          simpa [Abs.openPair, Abs.register, Abs.open_, Ne.symm hpc, Ne.symm hgc] using ht
        let w : View := { viewOf d with pid := pid, pipe := d2.pipe, gpipe := d2.gpipe }
        have hw : (((abs s0).openPair i d2.pipe d2.gpipe).set i w).disp i = some w := by
          rw [Abs.set_disp, if_pos rfl]
        refine Runs.Path.trans (hgo pid d2.pipe d2.gpipe hpid ⟨hp, hg, hpg, htp', htg'⟩) (Runs.Path.trans
          (Path.one (.openCtrl (some i) c) (hP _ _ rfl) ⟨(w.ctrl, w.css), ?_, hlt, hle, htc, ?_, rfl⟩)
          (Path.one (.dropSd i) (hP _ _ rfl)
            ⟨{ w with ctrl := c }, { d.sdRec with how := 0 }, ?_, rfl, ?_⟩))
        · show Option.map _ _ = _
          rw [hw]
          rfl
        · intro j v hj hv
          cases hj
          rw [hw] at hv
          rw [← Option.some.inj hv]
          exact hpid
        · rw [Abs.setCtrl_some _ _ _ hw]
          exact Abs.set_disp.trans (if_pos rfl)
        · rw [Abs.setCtrl_some _ _ _ hw, Abs.set_set]
    · exact absurd h hpid

/-- `startServerSuccess`. -/
theorem startServerSuccess_steps (hP : Ordinary P) (hs : s.startingServer = some i)
    (hd : s.find i = some d) (hst : d.serverStatus = .starting)
    (hfail : (gFork i (openCtrl (some i) (({ s.setServerStatus i .ignore with
        serverTimeout := TO_INF }).log (.startDisplayP2 i d.status)))).1 = -1 →
      ∀ pid b, b.slot = s.startingServer → P (.serverReadyFails i pid) b) :
    Steps P (abs s) (abs (startServerSuccess s)) := by
  unfold startServerSuccess
  rw [hs]
  dsimp only
  have hd1 : ({ s.setServerStatus i .ignore with serverTimeout := TO_INF } : State).find i =
      some { d with serverStatus := .ignore } := find_modify_self hd fun _ => rfl
  have ha1 : abs { s.setServerStatus i .ignore with serverTimeout := TO_INF } =
      { (abs s).set i { viewOf d with serverStatus := .ignore } with timer := TO_INF } := by
    show { abs (s.setServerStatus i .ignore) with timer := TO_INF } = _
    rw [abs_setServerStatus hd]
  generalize ({ s.setServerStatus i .ignore with serverTimeout := TO_INF } : State) = s1 at *
  let c : Call := .startDisplayP2 i d.status
  have hcall : Step (.call c) (abs s) { abs s with calls := c :: (abs s).calls } :=
    ⟨⟨viewOf d, abs_disp hd, .inr ⟨hs, hst, rfl⟩⟩, rfl⟩
  have ha2 : abs (s1.log c) = { ({ abs s with calls := c :: (abs s).calls } : Abs).set i
      { viewOf d with serverStatus := .ignore } with timer := TO_INF } := by
    show { abs s1 with calls := c :: (abs s1).calls } = _
    rw [ha1]
    rfl
  refine Runs.Path.trans (Path.one _ (hP _ _ rfl) hcall) (startDisplayP2_steps hP hd1 rfl ?_ ?_)
  · intro pid p g hpid hfresh
    rw [show s1.log (.startDisplayP2 i ({ d with serverStatus := .ignore } : Display).status) =
      s1.log c from rfl] at hfresh ⊢
    rw [ha2] at hfresh ⊢
    refine Path.one (.serverReady i pid p g) (hP _ _ rfl)
      ⟨viewOf d, abs_disp hd, hs, hst, hpid, hfresh, ?_⟩
    unfold Abs.openPair Abs.register Abs.open_ Abs.set
    simp only [Function.update_idem]
    rfl
  · intro hg pid hpid
    rw [show s1.log (.startDisplayP2 i ({ d with serverStatus := .ignore } : Display).status) =
      s1.log c from rfl, ha2]
    refine Path.one (.serverReadyFails i pid) (hfail hg pid _ rfl)
      ⟨viewOf d, abs_disp hd, hs, hst, hpid, ?_⟩
    simp only [Abs.set, Function.update_idem]
    rfl

/-- `startDisplay` of a display that is not running. -/
theorem startDisplay_steps (hP : Ordinary P) (hd : s.find i = some d) (hst : d.status = .notRunning) :
    Steps P (abs s) (abs (startDisplay i s)) := by
  unfold startDisplay
  split
  · exact stopDisplay_steps hP i s
  · rw [withDisplay_some hd]
    split
    · exact Path.nil _
    · have hd1 : (s.setStatus i .running).find i = some { d with status := .running } :=
        find_modify_self hd fun _ => rfl
      have ha1 := abs_setStatus hd .running
      generalize s.setStatus i .running = s1 at hd1 ha1 ⊢
      dsimp only
      split
      · rename_i hl
        refine Path.one (.startAwait i) (hP _ _ rfl) ⟨viewOf d, abs_disp hd, hst, hl.2, ?_⟩
        rw [abs_setServerStatus hd1, ha1, Abs.set_set]
        rfl
      · let c : Call := .startDisplayP2 i .running
        have hcall : Step (.call c) (abs s) { abs s with calls := c :: (abs s).calls } :=
          ⟨⟨viewOf d, abs_disp hd, .inl ⟨hst, rfl⟩⟩, rfl⟩
        have ha2 : abs (s1.log c) = ({ abs s with calls := c :: (abs s).calls } : Abs).set i
            { viewOf d with status := .running } := by
          show { abs s1 with calls := c :: (abs s1).calls } = _
          rw [ha1]
          rfl
        refine Runs.Path.trans (Path.one _ (hP _ _ rfl) hcall) (startDisplayP2_steps hP hd1 rfl ?_ ?_)
        · intro pid p g hpid hfresh
          rw [show s1.log (.startDisplayP2 i ({ d with status := .running } : Display).status) =
            s1.log c from rfl] at hfresh ⊢
          rw [ha2] at hfresh ⊢
          refine Path.one (.session i pid p g) (hP _ _ rfl)
            ⟨viewOf d, abs_disp hd, hst, hpid, hfresh, ?_⟩
          unfold Abs.openPair Abs.register Abs.open_ Abs.set
          simp only [Function.update_idem]
          rfl
        · intro _ pid hpid
          rw [show s1.log (.startDisplayP2 i ({ d with status := .running } : Display).status) =
            s1.log c from rfl, ha2, Abs.set_set]
          refine Path.one (.noSession i pid) (hP _ _ rfl) ⟨viewOf d, abs_disp hd, hst, hpid, ?_⟩
          have hw : viewOf d = { viewOf d with status := .notRunning } := by rw [← hst]; rfl
          rw [hw]
          rfl

/-- **`kickDisplay`.** -/
theorem kickDisplay_steps (hP : Ordinary P) (hT : Timed P) (i : Id) (s : State) :
    Steps P (abs s) (abs (kickDisplay i s)) := by
  unfold kickDisplay
  have h1 : Steps P (abs s) (abs (s.withDisplay i fun d s =>
      if d.status = .notRunning then startDisplay i s else s)) := by
    cases hd : s.find i with
    | none => rw [withDisplay_none hd]; exact Path.nil _
    | some d =>
      rw [withDisplay_some hd]
      split
      · rename_i hst; exact startDisplay_steps hP hd hst
      · exact Path.nil _
  refine h1.trans ?_
  generalize (s.withDisplay i fun d s => if d.status = .notRunning then startDisplay i s else s) = s1
  dsimp only
  cases hd : s1.find i with
  | none => rw [withDisplay_none hd]; exact Path.nil _
  | some d =>
    rw [withDisplay_some hd]
    split
    · rename_i hc; exact startServer_steps hP hT hd hc.1 hc.2
    · exact Path.nil _

/-! ## Virtual terminals -/

theorem abs_pickVT (i : Id) (l : List (Int × Bool)) (s : State) : abs (pickVT i s l) = abs s := by
  induction l with
  | nil => rfl
  | cons c l ih =>
    obtain ⟨tvt, volun⟩ := c
    unfold pickVT
    split
    · exact ih
    · rw [abs_modify_unseen (by intro; rfl) (by intro; rfl), abs_modify_unseen (by intro; rfl) (by intro; rfl)]
    · split
      · exact ih
      · rw [abs_modify_unseen (by intro; rfl) (by intro; rfl)]

/-- The model does not see `allocateVT`. -/
theorem abs_allocateVT (i : Id) (s : State) : abs (allocateVT i s) = abs s := by
  unfold allocateVT
  cases hd : s.find i with
  | none => rw [withDisplay_none hd]
  | some d =>
    rw [withDisplay_some hd]
    split
    · split
      · rw [abs_modify_unseen (by intro; rfl) (by intro; rfl)]
      · exact abs_pickVT i _ s
    · rfl

end Kdm
