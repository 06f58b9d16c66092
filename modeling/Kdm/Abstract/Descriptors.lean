import Kdm.Abstract.Orderly

/-!
# Descriptors

Every descriptor in the mask is open, and what it was opened for still is there and holds it.
This is kept by every orderly action but the two that close a pipe in the middle of a message,
which leave its bit in the mask.

Principal result: `Masked.step`.
-/

namespace Kdm

/-- What a descriptor was opened for holds it. -/
def Abs.owns (a : Abs) (fd : Int) : Owner → Prop
  | .signal => fd = a.signal
  | .listen => fd ∈ a.listen
  | .ctrl x => ∃ c, a.ctrlOf x = some c ∧ c.1 = fd
  | .conn x => ∃ c, a.ctrlOf x = some c ∧ fd ∈ c.2
  | .pipe i => ∃ v, a.disp i = some v ∧ v.pipe = fd
  | .gpipe i => ∃ v, a.disp i = some v ∧ v.gpipe = fd

def Masked (a : Abs) : Prop := ∀ fd ∈ a.mask, 0 ≤ fd ∧ ∃ o, a.table fd = some o ∧ a.owns fd o

/-- No pipe is closed behind the mask's back. -/
def ClosesCleanly : Act → Bool
  | .breakPipe _ | .breakGPipe _ => false
  | _ => true

/-! ## What is held stays held -/

/-- Everything outside the display list that holds descriptors is the same. -/
structure SameSockets (a b : Abs) : Prop where
  signal : b.signal = a.signal
  listen : b.listen = a.listen
  ctrl : b.ctrl = a.ctrl
  css : b.css = a.css

theorem SameSockets.refl (a : Abs) : SameSockets a a := ⟨rfl, rfl, rfl, rfl⟩

/-- The display holds the same descriptors. -/
def SameFds (v w : View) : Prop :=
  w.pipe = v.pipe ∧ w.gpipe = v.gpipe ∧ w.ctrl = v.ctrl ∧ w.css = v.css

section

variable {a b : Abs} {i j : Id} {v w : View} {fd : Int} {o : Owner} {p g : Int}

/-- Each display that holds `fd` still holds it. -/
theorem owns_of_disp (hr : SameSockets a b)
    (hd : ∀ j v, a.disp j = some v → ∃ w, b.disp j = some w ∧ (v.pipe = fd → w.pipe = fd) ∧
      (v.gpipe = fd → w.gpipe = fd) ∧ (v.ctrl = fd → w.ctrl = fd) ∧ (fd ∈ v.css → fd ∈ w.css))
    (h : a.owns fd o) : b.owns fd o := by
  have hctrl (j : Id) (c : Int × List Int) (hc : a.ctrlOf (some j) = some c) :
      ∃ c', b.ctrlOf (some j) = some c' ∧ (c.1 = fd → c'.1 = fd) ∧ (fd ∈ c.2 → fd ∈ c'.2) := by
    obtain ⟨v, hv, rfl⟩ := Option.map_eq_some_iff.mp hc
    obtain ⟨w, hw, -, -, h3, h4⟩ := hd j v hv
    exact ⟨(w.ctrl, w.css), by simp [Abs.ctrlOf, hw], h3, h4⟩
  cases o with
  | signal => exact h.trans hr.signal.symm
  | listen =>
    show fd ∈ b.listen
    rw [hr.listen]; exact h
  | ctrl x =>
    obtain ⟨c, hc, hfd⟩ := h
    cases x with
    | none =>
      cases hc
      exact ⟨_, rfl, hr.ctrl.trans hfd⟩
    | some j =>
      obtain ⟨c', hc', h1, -⟩ := hctrl j c hc
      exact ⟨c', hc', h1 hfd⟩
  | conn x =>
    obtain ⟨c, hc, hfd⟩ := h
    cases x with
    | none =>
      cases hc
      exact ⟨_, rfl, by rw [hr.css]; exact hfd⟩
    | some j =>
      obtain ⟨c', hc', -, h2⟩ := hctrl j c hc
      exact ⟨c', hc', h2 hfd⟩
  | pipe j =>
    obtain ⟨v, hv, hfd⟩ := h
    obtain ⟨w, hw, h1, -⟩ := hd j v hv
    exact ⟨w, hw, h1 hfd⟩
  | gpipe j =>
    obtain ⟨v, hv, hfd⟩ := h
    obtain ⟨w, hw, -, h2, -⟩ := hd j v hv
    exact ⟨w, hw, h2 hfd⟩

theorem owns_of_set (hr : SameSockets a b) (hv : a.disp i = some v) (hd : b.disp = (a.set i w).disp)
    (hw : (v.pipe = fd → w.pipe = fd) ∧ (v.gpipe = fd → w.gpipe = fd) ∧ (v.ctrl = fd → w.ctrl = fd) ∧
      (fd ∈ v.css → fd ∈ w.css)) (h : a.owns fd o) : b.owns fd o := by
  refine owns_of_disp hr (fun j u hu => ?_) h
  rw [hd]
  by_cases hj : j = i
  · subst hj
    cases hv.symm.trans hu
    exact ⟨w, by rw [Abs.set_disp, if_pos rfl], hw⟩
  · exact ⟨u, by rw [Abs.set_disp, if_neg hj]; exact hu, id, id, id, id⟩

namespace Masked

/-- Nothing is opened, and what stays in the mask stays held. -/
theorem mono (h : Masked a) (hm : ∀ fd ∈ b.mask, fd ∈ a.mask ∧ b.table fd = a.table fd)
    (ho : ∀ fd o, fd ∈ b.mask → 0 ≤ fd → a.owns fd o → b.owns fd o) : Masked b := by
  intro fd hfd
  obtain ⟨hma, ht⟩ := hm fd hfd
  obtain ⟨h0, o, hto, hown⟩ := h fd hma
  exact ⟨h0, o, ht.trans hto, ho fd o hfd h0 hown⟩

theorem frame (h : Masked a) (hm : b.mask = a.mask) (ht : b.table = a.table) (hr : SameSockets a b)
    (hd : b.disp = a.disp) : Masked b :=
  h.mono (fun fd hfd => ⟨hm ▸ hfd, by rw [ht]⟩) fun fd o _ _ =>
    owns_of_disp hr fun j v hv => ⟨v, by rw [hd]; exact hv, id, id, id, id⟩

/-- Actions on a display that keeps its descriptors. -/
theorem set (h : Masked a) (hv : a.disp i = some v) (hw : SameFds v w)
    (hd : b.disp = (a.set i w).disp) (hm : b.mask = a.mask) (ht : b.table = a.table)
    (hr : SameSockets a b) : Masked b := by
  refine h.mono (fun fd hfd => ⟨hm ▸ hfd, by rw [ht]⟩) fun fd o _ _ => ?_
  obtain ⟨h1, h2, h3, h4⟩ := hw
  exact owns_of_set hr hv hd ⟨fun h => h1.trans h, fun h => h2.trans h, fun h => h3.trans h,
    fun h => by rw [h4]; exact h⟩

/-- A display without descriptors leaves the list. -/
theorem drop (h : Masked a)
    (hv : ∀ v, a.disp i = some v → v.pipe = -1 ∧ v.gpipe = -1 ∧ v.ctrl < 0 ∧ v.css = [])
    (hd : b.disp = (a.drop i).disp) (hm : b.mask = a.mask) (ht : b.table = a.table)
    (hr : SameSockets a b) : Masked b := by
  refine h.mono (fun fd hfd => ⟨hm ▸ hfd, by rw [ht]⟩) fun fd o _ h0 hown => ?_
  have hgone (j : Id) (v : View) (hj : a.disp j = some v)
      (hheld : v.pipe = fd ∨ v.gpipe = fd ∨ v.ctrl = fd ∨ fd ∈ v.css) : b.disp j = some v := by
    rw [hd, Abs.drop_disp, if_neg]
    · exact hj
    · rintro rfl
      obtain ⟨h1, h2, h3, h4⟩ := hv v hj
      rcases hheld with h' | h' | h' | h'
      · omega
      · omega
      · omega
      · rw [h4] at h'; cases h'
  have hsome (j : Id) (c : Int × List Int) (hc : a.ctrlOf (some j) = some c)
      (hheld : c.1 = fd ∨ fd ∈ c.2) : b.ctrlOf (some j) = some c := by
    obtain ⟨v, hj, rfl⟩ := Option.map_eq_some_iff.mp hc
    simp [Abs.ctrlOf, hgone j v hj (.inr (.inr hheld))]
  cases o with
  | signal => exact Eq.trans hown hr.signal.symm
  | listen =>
    show fd ∈ b.listen
    rw [hr.listen]; exact hown
  | ctrl x =>
    obtain ⟨c, hc, hfd⟩ := hown
    cases x with
    | none => cases hc; exact ⟨_, rfl, hr.ctrl.trans hfd⟩
    | some j => exact ⟨c, hsome j c hc (.inl hfd), hfd⟩
  | conn x =>
    obtain ⟨c, hc, hfd⟩ := hown
    cases x with
    | none => cases hc; exact ⟨_, rfl, by rw [hr.css]; exact hfd⟩
    | some j => exact ⟨c, hsome j c hc (.inr hfd), hfd⟩
  | pipe j =>
    obtain ⟨v, hj, hfd⟩ := hown
    exact ⟨v, hgone j v hj (.inl hfd), hfd⟩
  | gpipe j =>
    obtain ⟨v, hj, hfd⟩ := hown
    exact ⟨v, hgone j v hj (.inr (.inl hfd)), hfd⟩

/-- One descriptor is opened and registered. -/
theorem open_ (h : Masked a) (h0 : 0 ≤ fd) (hfree : a.table fd = none)
    (hm : b.mask = insert fd a.mask) (ht : b.table = Function.update a.table fd (some o))
    (hnew : b.owns fd o) (hold : ∀ fd' o', 0 ≤ fd' → a.owns fd' o' → b.owns fd' o') : Masked b := by
  intro fd' hfd'
  rw [hm] at hfd'
  rcases Set.mem_insert_iff.mp hfd' with rfl | hfd'
  · exact ⟨h0, o, by rw [ht, Function.update_self], hnew⟩
  · obtain ⟨h1, o', hto, hown⟩ := h fd' hfd'
    have hne : fd' ≠ fd := by
      rintro rfl
      rw [hfree] at hto
      cases hto
    exact ⟨h1, o', by rw [ht, Function.update_of_ne hne]; exact hto, hold fd' o' h1 hown⟩

/-- A session is started for a display that has no pipes. -/
theorem openPair (h : Masked a) (hv : a.disp i = some v) (hpipes : v.pipe = -1 ∧ v.gpipe = -1)
    (hf : a.freshPair p g) (hw : w.pipe = p ∧ w.gpipe = g ∧ w.ctrl = v.ctrl ∧ w.css = v.css)
    (hd : b.disp = (a.set i w).disp) (hm : b.mask = (a.openPair i p g).mask)
    (ht : b.table = (a.openPair i p g).table) (hr : SameSockets a b) : Masked b := by
  obtain ⟨hp0, hg0, hne, hpfree, hgfree⟩ := hf
  obtain ⟨h1, h2, h3, h4⟩ := hw
  have hi : b.disp i = some w := by rw [hd, Abs.set_disp, if_pos rfl]
  have hold (fd : Int) (o : Owner) (hfd : 0 ≤ fd) (hown : a.owns fd o) : b.owns fd o := by
    refine owns_of_set hr hv hd ⟨fun h => ?_, fun h => ?_, fun h => h3.trans h, fun h => by rw [h4]; exact h⟩ hown
    · omega
    · omega
  have htab (fd : Int) : b.table fd =
      if fd = g then some (.gpipe i) else if fd = p then some (.pipe i) else a.table fd := by
    rw [ht]
    simp [Abs.openPair, Abs.register, Abs.open_, Function.update_apply]
  intro fd hfd
  rw [hm] at hfd
  have hfd : fd = g ∨ fd = p ∨ fd ∈ a.mask := hfd
  by_cases hfg : fd = g
  · subst hfg
    exact ⟨hg0, .gpipe i, by rw [htab, if_pos rfl], w, hi, h2⟩
  · by_cases hfp : fd = p
    · subst hfp
      exact ⟨hp0, .pipe i, by rw [htab, if_neg hfg, if_pos rfl], w, hi, h1⟩
    · obtain ⟨h0, o, hto, hown⟩ := h fd ((hfd.resolve_left hfg).resolve_left hfp)
      exact ⟨h0, o, by rw [htab, if_neg hfg, if_neg hfp]; exact hto, hold fd o h0 hown⟩

/-- Descriptors are closed and taken out of the mask; the others stay held. -/
theorem close (h : Masked a) {l : List Int} (hm : b.mask = { fd | fd ∈ a.mask ∧ fd ∉ l })
    (ht : b.table = fun fd => if fd ∈ l then none else a.table fd)
    (ho : ∀ fd o, fd ∉ l → 0 ≤ fd → a.owns fd o → b.owns fd o) : Masked b := by
  refine h.mono (fun fd hfd => ?_) fun fd o hfd => ?_
  · rw [hm] at hfd
    exact ⟨hfd.1, by rw [ht]; exact if_neg hfd.2⟩
  · rw [hm] at hfd
    exact ho fd o hfd.2

end Masked

/-- What a control socket that is written holds afterwards. -/
theorem owns_of_setCtrl {x : Option Id} {c : Int × List Int} {fd' : Int} {css : List Int}
    (hc : a.ctrlOf x = some c) (hd : b.disp = (a.setCtrl x fd' css).disp)
    (hs : b.signal = a.signal) (hl : b.listen = a.listen)
    (hg : b.ctrl = (a.setCtrl x fd' css).ctrl ∧ b.css = (a.setCtrl x fd' css).css)
    (hw : (c.1 = fd → fd' = fd) ∧ (fd ∈ c.2 → fd ∈ css)) (h : a.owns fd o) : b.owns fd o := by
  cases x with
  | some i =>
    obtain ⟨v, hv, rfl⟩ := Option.map_eq_some_iff.mp hc
    rw [Abs.setCtrl_some _ _ _ hv] at hd hg
    exact owns_of_set ⟨hs, hl, hg.1, hg.2⟩ hv hd ⟨id, id, hw.1, hw.2⟩ h
  | none =>
    cases hc
    cases o with
    | signal => exact Eq.trans h hs.symm
    | listen =>
      show fd ∈ b.listen
      rw [hl]; exact h
    | ctrl y =>
      obtain ⟨c, hc, hfd⟩ := h
      cases y with
      | none =>
        cases hc
        exact ⟨_, rfl, hg.1.trans (hw.1 hfd)⟩
      | some j =>
        refine ⟨c, ?_, hfd⟩
        simp only [Abs.ctrlOf, hd]
        exact hc
    | conn y =>
      obtain ⟨c, hc, hfd⟩ := h
      cases y with
      | none =>
        cases hc
        exact ⟨_, rfl, by rw [hg.2]; exact hw.2 hfd⟩
      | some j =>
        refine ⟨c, ?_, hfd⟩
        simp only [Abs.ctrlOf, hd]
        exact hc
    | pipe j =>
      obtain ⟨v, hv, hfd⟩ := h
      exact ⟨v, by rw [hd]; exact hv, hfd⟩
    | gpipe j =>
      obtain ⟨v, hv, hfd⟩ := h
      exact ⟨v, by rw [hd]; exact hv, hfd⟩

theorem setCtrl_holds {x : Option Id} {c : Int × List Int} {css : List Int}
    (hc : a.ctrlOf x = some c) (hd : b.disp = (a.setCtrl x fd css).disp)
    (hg : b.ctrl = (a.setCtrl x fd css).ctrl ∧ b.css = (a.setCtrl x fd css).css) :
    b.ctrlOf x = some (fd, css) := by
  cases x with
  | none =>
    show some (b.ctrl, b.css) = _
    rw [hg.1, hg.2]
    rfl
  | some i =>
    obtain ⟨v, hv, rfl⟩ := Option.map_eq_some_iff.mp hc
    rw [Abs.setCtrl_some _ _ _ hv] at hd
    simp [Abs.ctrlOf, hd]

end

theorem SameFds.refl (v : View) : SameFds v v := ⟨rfl, rfl, rfl, rfl⟩

theorem SameFds.stop {r : Reap} {z : EndState} {v : View} : SameFds v ((r.apply v).stop z) := by
  refine ⟨?_, ?_, ?_, ?_⟩ <;> simp <;> cases r <;> rfl

theorem SameFds.apply {r : Reap} {v : View} : SameFds v (r.apply v) := by
  cases r <;> exact .refl v

/-- A display without a process holds no descriptor. -/
theorem Good.no_fds {p : Prop} {v : View} (h : Good p v) (hp : v.pid = -1) :
    v.pipe = -1 ∧ v.gpipe = -1 ∧ v.ctrl < 0 ∧ v.css = [] := by
  obtain ⟨h1, h2, h3⟩ := h.pipes hp
  exact ⟨h1, h2, h3, h.css h3⟩

/-- **The mask holds open descriptors only.** -/
theorem Masked.step {x : Act} {a b : Abs} (h : Masked a) (ho : Orderly a)
    (hx : ClosesCleanly x = true) (hs : Step x a b) : Masked b := by
  cases x with
  | create v =>
    obtain ⟨rfl, rfl⟩ := hs
    refine h.mono (fun fd hfd => ⟨hfd, rfl⟩) fun fd o _ _ hown => ?_
    refine owns_of_disp (a := a) ⟨rfl, rfl, rfl, rfl⟩ (fun j v hv => ⟨v, ?_, id, id, id, id⟩) hown
    rw [Abs.add_disp, if_neg (Nat.ne_of_lt (ho.fresh j v hv))]
    exact hv
  | discard =>
    cases hs
    exact h.drop (i := a.nextId) (fun v hv => absurd (ho.fresh _ v hv) (Nat.lt_irrefl _)) rfl rfl rfl
      ⟨rfl, rfl, rfl, rfl⟩
  | remove i r z =>
    obtain ⟨v, hv, -, hr, -, hq, -, rfl⟩ := hs
    refine h.drop (fun u hu => ?_) rfl rfl rfl ⟨rfl, rfl, rfl, rfl⟩
    cases hv.symm.trans hu
    obtain ⟨hp, -, hc⟩ := (ho.good i v hv).reap hr
    obtain ⟨h1, h2, h3⟩ := hp hq.1
    have h4 := hc h3
    cases r <;> exact ⟨h1, h2, h3, h4⟩
  | stop i r z =>
    obtain ⟨v, hv, -, -, -, -, rfl⟩ := hs
    exact h.set hv SameFds.stop rfl rfl rfl ⟨rfl, rfl, rfl, rfl⟩
  | remote i r pid =>
    obtain ⟨v, hv, -, -, -, -, -, rfl⟩ := hs
    refine h.set hv ?_ rfl rfl rfl ⟨rfl, rfl, rfl, rfl⟩
    exact SameFds.apply (r := r) (v := v)
  | restart i st =>
    obtain ⟨v, hv, -, -, -, rfl⟩ := hs
    refine h.set hv ?_ rfl rfl rfl ⟨rfl, rfl, rfl, rfl⟩
    exact .refl v
  | session i pid p g =>
    obtain ⟨v, hv, hst, -, hf, rfl⟩ := hs
    have hg := ho.good i v hv
    obtain ⟨h1, h2, -⟩ := hg.no_fds (hg.idle (by rw [hst]; rfl))
    refine h.openPair (w := { v with status := .running, pid := pid, pipe := p, gpipe := g }) hv
      ⟨h1, h2⟩ hf ?_ Abs.openPair_set_disp (by simp [Abs.set]) (by simp [Abs.set])
      (by constructor <;> simp [Abs.openPair, Abs.register, Abs.open_, Abs.set])
    exact ⟨rfl, rfl, rfl, rfl⟩
  | serverReady i pid p g =>
    obtain ⟨v, hv, hsl, hst, -, hf, rfl⟩ := hs
    have hg := ho.good i v hv
    obtain ⟨h1, h2, -⟩ := hg.no_fds (hg.start hsl (by rw [hst]; rfl)).2
    refine h.openPair (w := { v with serverStatus := .ignore, pid := pid, pipe := p, gpipe := g }) hv
      ⟨h1, h2⟩ hf ?_ Abs.openPair_set_timer_disp (by simp [Abs.set]) (by simp [Abs.set])
      (by constructor <;> simp [Abs.openPair, Abs.register, Abs.open_, Abs.set])
    exact ⟨rfl, rfl, rfl, rfl⟩
  | relocate i l | putLocalSd i r | conf i t o =>
    obtain ⟨v, hv, rfl⟩ := hs
    refine h.set hv ?_ rfl rfl rfl ⟨rfl, rfl, rfl, rfl⟩
    exact .refl v
  | unreserve i | makeReserve i | user i uid | retry i lost | giveUp i lost | acceptSd i =>
    obtain ⟨v, hv, -, rfl⟩ := hs
    refine h.set hv ?_ rfl rfl rfl ⟨rfl, rfl, rfl, rfl⟩
    exact .refl v
  | wake i st | raise i | noSession i pid | serverExit i st | serverStart i pid | startAwait i =>
    obtain ⟨v, hv, -, -, rfl⟩ := hs
    refine h.set hv ?_ rfl rfl rfl ⟨rfl, rfl, rfl, rfl⟩
    exact .refl v
  | serverReadyFails i pid =>
    obtain ⟨v, hv, -, -, -, rfl⟩ := hs
    refine h.set hv ?_ rfl rfl rfl ⟨rfl, rfl, rfl, rfl⟩
    exact .refl v
  | dropSd i =>
    obtain ⟨v, r, hv, -, rfl⟩ := hs
    refine h.set hv ?_ rfl rfl rfl ⟨rfl, rfl, rfl, rfl⟩
    exact .refl v
  | abort i =>
    obtain ⟨-, ⟨v, hv, rfl⟩ | ⟨-, rfl⟩⟩ := hs
    · refine h.set hv ?_ rfl rfl rfl ⟨rfl, rfl, rfl, rfl⟩
      exact .refl v
    · exact h.frame rfl rfl ⟨rfl, rfl, rfl, rfl⟩ rfl
  | escalate i =>
    obtain ⟨v, hv, -, ⟨-, rfl⟩ | ⟨-, rfl⟩⟩ := hs
    all_goals
      refine h.set hv ?_ rfl rfl rfl ⟨rfl, rfl, rfl, rfl⟩
      exact .refl v
  | xconnOk i =>
    obtain ⟨v, -, -, rfl⟩ := hs
    exact h.frame rfl rfl ⟨rfl, rfl, rfl, rfl⟩ rfl
  | openCtrl y fd =>
    obtain ⟨c, hc, hlt, h0, hfree, -, rfl⟩ := hs
    refine h.open_ (o := .ctrl y) h0 hfree (by simp [Abs.register, Abs.open_])
      (by simp [Abs.register, Abs.open_]) ⟨_, setCtrl_holds hc rfl ⟨rfl, rfl⟩, rfl⟩ ?_
    intro fd' o' h0' hown
    exact owns_of_setCtrl hc rfl (by simp [Abs.register, Abs.open_]) (by simp [Abs.register, Abs.open_])
      ⟨rfl, rfl⟩ ⟨fun h => by omega, id⟩ hown
  | accept y fd =>
    obtain ⟨c, hc, -, h0, hfree, rfl⟩ := hs
    refine h.open_ (o := .conn y) h0 hfree (by simp [Abs.register, Abs.open_])
      (by simp [Abs.register, Abs.open_])
      ⟨_, setCtrl_holds hc rfl ⟨rfl, rfl⟩, List.mem_cons_self⟩ ?_
    intro fd' o' h0' hown
    exact owns_of_setCtrl hc rfl (by simp [Abs.register, Abs.open_]) (by simp [Abs.register, Abs.open_])
      ⟨rfl, rfl⟩ ⟨id, List.mem_cons_of_mem _⟩ hown
  | closeCtrl y =>
    obtain ⟨c, hc, rfl⟩ := hs
    refine h.close (l := ctrlFds c) (by simp [Abs.unregisterAll, Abs.closeAll])
      (by simp [Abs.unregisterAll, Abs.closeAll]) fun fd o hfd h0 hown => ?_
    refine owns_of_setCtrl hc rfl (by simp [Abs.unregisterAll, Abs.closeAll])
      (by simp [Abs.unregisterAll, Abs.closeAll]) ⟨rfl, rfl⟩ ⟨fun h => ?_, fun h => ?_⟩ hown
    · subst h
      exact absurd (by unfold ctrlFds; rw [if_pos h0]; exact List.mem_cons_self) hfd
    · refine absurd ?_ hfd
      unfold ctrlFds
      split
      · exact List.mem_cons_of_mem _ h
      · exact h
  | nuke y fd =>
    obtain ⟨c, hc, -, rfl⟩ := hs
    refine h.close (l := [fd]) (by simp [Abs.unregisterAll, Abs.closeAll])
      (by simp [Abs.unregisterAll, Abs.closeAll]) fun fd' o hfd h0 hown => ?_
    refine owns_of_setCtrl hc rfl (by simp [Abs.unregisterAll, Abs.closeAll])
      (by simp [Abs.unregisterAll, Abs.closeAll]) ⟨rfl, rfl⟩ ⟨id, fun h => ?_⟩ hown
    exact List.mem_filter.mpr ⟨h, by simpa using hfd⟩
  | listenOpen fd =>
    obtain ⟨h0, hfree, rfl⟩ := hs
    refine h.open_ (o := .listen) h0 hfree rfl rfl List.mem_cons_self fun fd' o' _ hown => ?_
    cases o' with
    | listen => exact List.mem_cons_of_mem _ hown
    | _ => exact hown
  | listenDrop keep dead =>
    obtain ⟨hperm, rfl⟩ := hs
    refine h.close (l := dead) rfl rfl fun fd o hfd _ hown => ?_
    cases o with
    | listen => exact (List.mem_append.mp (hperm.mem_iff.mp hown)).resolve_right hfd
    | _ => exact hown
  | unregister fd =>
    cases hs
    refine h.mono (fun fd' hfd' => ⟨hfd'.1, rfl⟩) fun fd' o _ _ hown => ?_
    exact owns_of_disp (a := a) ⟨rfl, rfl, rfl, rfl⟩ (fun j v hv => ⟨v, hv, id, id, id, id⟩) hown
  | closePipe i =>
    obtain ⟨v, hv, -, rfl⟩ := hs
    refine h.close (l := [v.pipe]) rfl rfl fun fd o hfd _ hown => ?_
    exact owns_of_set (a := a) ⟨rfl, rfl, rfl, rfl⟩ hv rfl
      ⟨fun h => absurd (List.mem_singleton.mpr h.symm) hfd, id, id, id⟩ hown
  | closeGPipe i =>
    obtain ⟨v, hv, -, rfl⟩ := hs
    refine h.close (l := [v.gpipe]) rfl rfl fun fd o hfd _ hown => ?_
    exact owns_of_set (a := a) ⟨rfl, rfl, rfl, rfl⟩ hv rfl
      ⟨id, fun h => absurd (List.mem_singleton.mpr h.symm) hfd, id, id⟩ hown
  | breakPipe i | breakGPipe i => cases hx
  | call c => obtain ⟨-, rfl⟩ := hs; exact h.frame rfl rfl ⟨rfl, rfl, rfl, rfl⟩ rfl
  | timerOff => obtain ⟨-, rfl⟩ := hs; exact h.frame rfl rfl ⟨rfl, rfl, rfl, rfl⟩ rfl
  | crash f => obtain ⟨-, -, rfl⟩ := hs; exact h.frame rfl rfl ⟨rfl, rfl, rfl, rfl⟩ rfl
  | reachSd => obtain ⟨-, -, rfl⟩ := hs; exact h.frame rfl rfl ⟨rfl, rfl, rfl, rfl⟩ rfl
  | tick n => obtain ⟨-, -, rfl⟩ := hs; exact h.frame rfl rfl ⟨rfl, rfl, rfl, rfl⟩ rfl
  | cancelSd | expireSd | stopAll | putSd r =>
    cases hs
    exact h.frame rfl rfl ⟨rfl, rfl, rfl, rfl⟩ rfl

end Kdm
