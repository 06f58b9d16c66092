import Kdm.Kcm.Collected

/-!
# Another range of UIDs

The loop of `slotMinMaxUID`, user by user: what is counted is a mixture of the two ranges, and the
names that go and come are those that make the difference between them.

Principal result: `incremental`.
-/

namespace Kdm.Kcm

variable {m : Values} {k g : Text} {us done rest : List User} {u : User} {r r' : Range} {p : Pass}
  {items : List Text}

/-! ## The loop -/

/-- A user that is shown no more, or only now. -/
def Turns (r r' : Range) (u : User) : Prop := shows r u = true ∧ shows r' u = false

theorem Turns.uid (h : Turns r r' u) : u.uid ≠ 0 := fun h0 => by
  have := shows_root h0 r'
  rw [h.2] at this
  cases this

theorem Turns.asymm (h : Turns r r' u) : ¬ Turns r' r u := fun h' => by
  have := h.1.symm.trans h'.2
  cases this

/-- How often a group is counted when the users up to some point have been seen. -/
def mixed (r r' : Range) (done rest : List User) (g : Text) : Nat := cnt r' done g + cnt r rest g

/-- What the loop has done when it has seen some of the users. -/
structure Mid (us : List User) (r r' : Range) (done rest : List User) (p : Pass) : Prop where
  counts : p.groupmap = counted (mixed r r' done rest)
  gone : ∀ e ∈ p.dlusers, e.2 ≠ 0 ∧ ((∃ u ∈ us, Turns r r' u ∧ e.1 = u.name) ∨
    ∃ g, e.1 = AT :: g ∧ 0 < cnt r us g ∧ ¬ Rooted us g)
  come : ∀ e ∈ p.alusers, e.2 ≠ 0 ∧ ((∃ u ∈ us, Turns r' r u ∧ e.1 = u.name) ∨
    ∃ g, e.1 = AT :: g ∧ Occurs us g ∧ cnt r rest g = 0 ∧ ¬ Rooted us g ∧
      (0 < cnt r us g → AT :: g ∈ p.dlusers.keys))
  leaves : ∀ u ∈ done, Turns r r' u → u.name ∈ p.dlusers.keys
  enters : ∀ u ∈ done, Turns r' r u → u.name ∈ p.alusers.keys
  groups : ∀ g, Occurs us g →
    ((AT :: g ∈ p.alusers.keys ∨ (0 < cnt r us g ∧ AT :: g ∉ p.dlusers.keys)) ↔
      0 < mixed r r' done rest g)
  dlNodup : p.dlusers.keys.Nodup
  alNodup : p.alusers.keys.Nodup

theorem mixed_snoc (r r' : Range) (done rest : List User) (u : User) (g : Text) :
    mixed r r' (done ++ [u]) rest g =
      cnt r' done g + (if shows r' u then u.groups.count g else 0) + cnt r rest g := by
  unfold mixed
  rw [cnt_snoc]

theorem mixed_cons (r r' : Range) (done rest : List User) (u : User) (g : Text) :
    mixed r r' done (u :: rest) g =
      cnt r' done g + (if shows r u then u.groups.count g else 0) + cnt r rest g := by
  unfold mixed
  rw [cnt, Nat.add_assoc]

theorem mixed_start (r r' : Range) (us : List User) (g : Text) : mixed r r' [] us g = cnt r us g :=
  Nat.zero_add _

theorem mixed_end (r r' : Range) (us : List User) (g : Text) : mixed r r' us [] g = cnt r' us g :=
  Nat.add_zero _

/-- A user whose visibility does not change. -/
theorem Mid.stay (h : Mid us r r' done (u :: rest) p) (hs : shows r u = shows r' u) :
    Mid us r r' (done ++ [u]) rest p := by
  have hmixed : mixed r r' (done ++ [u]) rest = mixed r r' done (u :: rest) := by
    funext g
    rw [mixed_snoc, mixed_cons, hs]
  have hnot (u' : User) (hu : u' ∈ done ++ [u]) (hd : u' ∉ done) : u' = u :=
    List.mem_singleton.mp ((List.mem_append.mp hu).resolve_left hd)
  refine ⟨hmixed ▸ h.counts, h.gone, fun e he => ?_, fun w hw ht => ?_, fun w hw ht => ?_,
    hmixed ▸ h.groups, h.dlNodup, h.alNodup⟩
  · obtain ⟨hv, hu | ⟨g, hk, hocc, h0, hrest⟩⟩ := h.come e he
    · exact ⟨hv, Or.inl hu⟩
    · rw [cnt] at h0
      exact ⟨hv, Or.inr ⟨g, hk, hocc, by omega, hrest⟩⟩
  · by_cases hd : w ∈ done
    · exact h.leaves w hd ht
    · obtain rfl := hnot w hw hd
      exact absurd (hs.symm.trans ht.1) (by simp [ht.2])
  · by_cases hd : w ∈ done
    · exact h.enters w hd ht
    · obtain rfl := hnot w hw hd
      exact absurd (hs.trans ht.1) (by simp [ht.2])

/-- Before a user with another UID than 0 there is a member with the UID 0, if its group has one. -/
theorem not_rooted (r : Range) (ht : Tidy us) (hus : us = done ++ u :: rest) (hg : g ∈ u.groups) (huid : u.uid ≠ 0)
    (h0 : cnt r done g = 0) : ¬ Rooted us g := by
  intro hroot
  obtain ⟨v, hv, hv0, hvg⟩ := ht.rootFirst done u rest hus g hg huid hroot
  have := cnt_pos.mpr ⟨v, hv, shows_root hv0 r, hvg⟩
  omega

/-- The key of a group is not the name of a user. -/
theorem Tidy.ne_name (ht : Tidy us) (hu : u ∈ us) (hg : Occurs us g) : AT :: g ≠ u.name := by
  obtain ⟨v, hv, hvg⟩ := hg
  exact Ne.symm (ht.noAt u hu v hv g hvg)

/-- A group that came has nobody left to go. -/
theorem Mid.come_group (ht : Tidy us) (h : Mid us r r' done rest p) (hg : Occurs us g)
    (hk : AT :: g ∈ p.alusers.keys) :
    cnt r rest g = 0 ∧ ¬ Rooted us g ∧ (0 < cnt r us g → AT :: g ∈ p.dlusers.keys) := by
  obtain ⟨v, hm⟩ := mem_keys.mp hk
  obtain ⟨-, ⟨u, hu, -, he⟩ | ⟨g', he, -, hrest⟩⟩ := h.come _ hm
  · exact absurd he (ht.ne_name hu hg)
  · cases he
    exact hrest

/-- A user that goes. -/
theorem Mid.goes (ht : Tidy us) (hus : us = done ++ u :: rest) (h : Mid us r r' done (u :: rest) p)
    (hs : Turns r r' u) :
    ∃ m, leave u.uid u.groups (p.groupmap, p.dlusers.insert u.name u.uid) =
        some (counted (mixed r r' (done ++ [u]) rest), m) ∧
      Mid us r r' (done ++ [u]) rest ⟨counted (mixed r r' (done ++ [u]) rest), m, p.alusers⟩ := by
  have hmem : u ∈ us := hus ▸ List.mem_append_right done List.mem_cons_self
  have hmixed (g : Text) :
      mixed r r' done (u :: rest) g = mixed r r' (done ++ [u]) rest g + u.groups.count g := by
    rw [mixed_cons, mixed_snoc, if_pos hs.1, if_neg (by simp [hs.2])]
    omega
  obtain ⟨m, he, hadds⟩ := leave_spec u.groups (mixed r r' done (u :: rest))
    (p.dlusers.insert u.name u.uid) u.uid fun g => by rw [hmixed]; omega
  have hcounts : (fun g => mixed r r' done (u :: rest) g - u.groups.count g) =
      mixed r r' (done ++ [u]) rest := by
    funext g
    rw [hmixed, Nat.add_sub_cancel]
  have hkeys (k : Text) : k ∈ m.keys ↔ (k = u.name ∨ k ∈ p.dlusers.keys) ∨
      ∃ g, (g ∈ u.groups ∧ mixed r r' (done ++ [u]) rest g = 0) ∧ k = AT :: g := by
    rw [hadds.keys, mem_keys_insert]
    simp only [hmixed, Nat.add_eq_right]
  have hgrow {k : Text} (hk : k ∈ p.dlusers.keys) : k ∈ m.keys := (hkeys k).mpr (Or.inl (Or.inr hk))
  rw [h.counts, he, hcounts]
  refine ⟨m, rfl, rfl, fun e hm => ?_, fun e hm => ?_, fun w hw hw' => ?_, fun w hw hw' => ?_,
    fun g hg => ?_, hadds.nodup (nodup_insert h.dlNodup _ _), h.alNodup⟩
  · obtain hm | ⟨g, ⟨hg, h0⟩, rfl⟩ := hadds.values e hm
    · obtain rfl | ⟨hm, -⟩ := mem_insert.mp hm
      · exact ⟨hs.uid, Or.inl ⟨u, hmem, hs, rfl⟩⟩
      · exact h.gone e hm
    · refine ⟨Int.neg_ne_zero.mpr hs.uid, Or.inr ⟨g, rfl, cnt_pos.mpr ⟨u, hmem, hs.1, hg⟩, ?_⟩⟩
      refine not_rooted r' ht hus hg hs.uid ?_
      rw [mixed_cons, if_pos hs.1] at h0
      omega
  · obtain ⟨hv, hu | ⟨g, hk, hocc, h0, hroot, hdl⟩⟩ := h.come e hm
    · exact ⟨hv, Or.inl hu⟩
    · rw [cnt] at h0
      exact ⟨hv, Or.inr ⟨g, hk, hocc, by omega, hroot, fun hpos => hgrow (hdl hpos)⟩⟩
  · obtain hw | hw := List.mem_append.mp hw
    · exact hgrow (h.leaves w hw hw')
    · obtain rfl := List.mem_singleton.mp hw
      exact (hkeys _).mpr (Or.inl (Or.inl rfl))
  · obtain hw | hw := List.mem_append.mp hw
    · exact h.enters w hw hw'
    · obtain rfl := List.mem_singleton.mp hw
      exact absurd hw' hs.asymm
  · have hdl : AT :: g ∈ m.keys ↔
        AT :: g ∈ p.dlusers.keys ∨ g ∈ u.groups ∧ mixed r r' (done ++ [u]) rest g = 0 := by
      rw [hkeys, or_iff_right (ht.ne_name hmem hg)]
      refine or_congr_right ⟨?_, fun hz => ⟨g, hz, rfl⟩⟩
      rintro ⟨g', hz, he⟩
      cases he
      exact hz
    have hold := h.groups g hg
    rw [hmixed] at hold
    rw [hdl]
    by_cases hin : g ∈ u.groups
    · have hc := List.count_pos_iff.mpr hin
      have hpos := cnt_pos.mpr ⟨u, hmem, hs.1, hin⟩
      by_cases hz : mixed r r' (done ++ [u]) rest g = 0
      · refine iff_of_false ?_ (by omega)
        rintro (hal | ⟨-, hnot⟩)
        · have := (h.come_group ht hg hal).1
          rw [cnt, if_pos hs.1] at this
          omega
        · exact hnot (Or.inr ⟨hin, hz⟩)
      · refine iff_of_true ?_ (by omega)
        obtain hal | ⟨hcnt, hnot⟩ := hold.mpr (by omega)
        · exact Or.inl hal
        · exact Or.inr ⟨hcnt, fun h' => h'.elim hnot fun hz' => hz hz'.2⟩
    · rw [List.count_eq_zero.mpr hin, Nat.add_zero] at hold
      have hout : ¬ (g ∈ u.groups ∧ mixed r r' (done ++ [u]) rest g = 0) := fun h' => hin h'.1
      rw [← hold, or_iff_left hout]

/-- A user that comes. -/
theorem Mid.comes (ht : Tidy us) (hus : us = done ++ u :: rest) (h : Mid us r r' done (u :: rest) p)
    (hs : Turns r' r u) :
    ∃ m, enter u.uid u.groups (p.groupmap, p.alusers.insert u.name u.uid) =
        (counted (mixed r r' (done ++ [u]) rest), m) ∧
      Mid us r r' (done ++ [u]) rest ⟨counted (mixed r r' (done ++ [u]) rest), p.dlusers, m⟩ := by
  have hmem : u ∈ us := hus ▸ List.mem_append_right done List.mem_cons_self
  have hmixed (g : Text) :
      mixed r r' (done ++ [u]) rest g = mixed r r' done (u :: rest) g + u.groups.count g := by
    rw [mixed_cons, mixed_snoc, if_pos hs.1, if_neg (by simp [hs.2])]
    omega
  have hrest (g : Text) : cnt r (u :: rest) g = cnt r rest g := by
    rw [cnt, if_neg (by simp [hs.2]), Nat.zero_add]
  obtain ⟨m, he, hadds⟩ := enter_spec u.groups (mixed r r' done (u :: rest))
    (p.alusers.insert u.name u.uid) u.uid
  have hcounts : (fun g => mixed r r' done (u :: rest) g + u.groups.count g) =
      mixed r r' (done ++ [u]) rest := by
    funext g
    rw [hmixed]
  have hkeys (k : Text) : k ∈ m.keys ↔ (k = u.name ∨ k ∈ p.alusers.keys) ∨
      ∃ g, (g ∈ u.groups ∧ mixed r r' done (u :: rest) g = 0) ∧ k = AT :: g := by
    rw [hadds.keys, mem_keys_insert]
  have hgrow {k : Text} (hk : k ∈ p.alusers.keys) : k ∈ m.keys := (hkeys k).mpr (Or.inl (Or.inr hk))
  rw [h.counts, he, hcounts]
  refine ⟨m, rfl, rfl, h.gone, fun e hm => ?_, fun w hw hw' => ?_, fun w hw hw' => ?_,
    fun g hg => ?_, h.dlNodup, hadds.nodup (nodup_insert h.alNodup _ _)⟩
  · obtain hm | ⟨g, ⟨hg, h0⟩, rfl⟩ := hadds.values e hm
    · obtain rfl | ⟨hm, -⟩ := mem_insert.mp hm
      · exact ⟨hs.uid, Or.inl ⟨u, hmem, hs, rfl⟩⟩
      · obtain ⟨hv, hu | ⟨g, hk, hocc, h0, hgroup⟩⟩ := h.come e hm
        · exact ⟨hv, Or.inl hu⟩
        · exact ⟨hv, Or.inr ⟨g, hk, hocc, hrest g ▸ h0, hgroup⟩⟩
    · have hocc : Occurs us g := ⟨u, hmem, hg⟩
      have hold := h.groups g hocc
      rw [mixed_cons] at h0
      refine ⟨Int.neg_ne_zero.mpr hs.uid, Or.inr ⟨g, rfl, hocc, by omega,
        not_rooted r' ht hus hg hs.uid (by omega), fun hpos => ?_⟩⟩
      by_contra hdl
      have := hold.mp (Or.inr ⟨hpos, hdl⟩)
      rw [mixed_cons] at this
      omega
  · obtain hw | hw := List.mem_append.mp hw
    · exact h.leaves w hw hw'
    · obtain rfl := List.mem_singleton.mp hw
      exact absurd hw' hs.asymm
  · obtain hw | hw := List.mem_append.mp hw
    · exact hgrow (h.enters w hw hw')
    · obtain rfl := List.mem_singleton.mp hw
      exact (hkeys _).mpr (Or.inl (Or.inl rfl))
  · have hal : AT :: g ∈ m.keys ↔
        AT :: g ∈ p.alusers.keys ∨ g ∈ u.groups ∧ mixed r r' done (u :: rest) g = 0 := by
      rw [hkeys, or_iff_right (ht.ne_name hmem hg)]
      refine or_congr_right ⟨?_, fun hz => ⟨g, hz, rfl⟩⟩
      rintro ⟨g', hz, he⟩
      cases he
      exact hz
    rw [hal, or_right_comm, h.groups g hg, hmixed]
    constructor
    · rintro (hpos | ⟨hin, -⟩)
      · omega
      · have := List.count_pos_iff.mpr hin
        omega
    · intro hpos
      by_cases hz : 0 < mixed r r' done (u :: rest) g
      · exact Or.inl hz
      · exact Or.inr ⟨List.count_pos_iff.mp (by omega), by omega⟩

theorem pass_spec (ht : Tidy us) (hus : us = done ++ rest) (h : Mid us r r' done rest p) :
    ∃ p', pass r r' rest p = some p' ∧ Mid us r r' us [] p' := by
  induction rest generalizing done p with
  | nil =>
    rw [List.append_nil] at hus
    rw [← hus] at h
    exact ⟨p, rfl, h⟩
  | cons u rest ih =>
    have hus' : us = (done ++ [u]) ++ rest := by
      rw [List.append_assoc]
      exact hus
    unfold pass
    by_cases h0 : u.uid = 0
    · rw [if_pos h0]
      exact ih hus' (h.stay ((shows_root h0 r).trans (shows_root h0 r').symm))
    · rw [if_neg h0]
      have hshows (x : Range) : shows x u = x.has u.uid := by
        simp [shows, h0]
      rw [← hshows, ← hshows]
      cases hr : shows r u <;> cases hr' : shows r' u
      · exact ih hus' (h.stay (hr.trans hr'.symm))
      · obtain ⟨m, he, hmid⟩ := h.comes ht hus ⟨hr', hr⟩
        obtain ⟨p', hp, hend⟩ := ih hus' hmid
        refine ⟨p', ?_, hend⟩
        rw [← hp]
        simp [he]
      · obtain ⟨m, he, hmid⟩ := h.goes ht hus ⟨hr, hr'⟩
        obtain ⟨p', hp, hend⟩ := ih hus' hmid
        refine ⟨p', ?_, hend⟩
        rw [← hp]
        simp [he]
      · exact ih hus' (h.stay (hr.trans hr'.symm))

/-! ## The lists -/

theorem deleteFirst_eq {keys : List Text} (hi : items.Nodup) (hk : keys.Nodup)
    (hsub : ∀ k ∈ keys, k ∈ items) :
    deleteFirst keys items = some (items.filter fun item => item ∉ keys) := by
  induction keys generalizing items with
  | nil => simp [deleteFirst]
  | cons key keys ih =>
    obtain ⟨hnot, hk⟩ := List.nodup_cons.mp hk
    unfold deleteFirst
    rw [if_pos (hsub key List.mem_cons_self), ih (hi.erase key) hk, hi.erase_eq_filter,
      List.filter_filter]
    · congr 1
      refine List.filter_congr fun item _ => ?_
      by_cases he : item = key <;> simp [he]
    · intro k hm
      have hne : k ≠ key := fun he => hnot (he ▸ hm)
      exact (List.mem_erase_of_ne hne).mpr (hsub k (List.mem_cons_of_mem key hm))

/-- All the values of a map are other than 0. -/
theorem nonzero_eq_keys (h : ∀ e ∈ m, e.2 ≠ 0) : m.nonzero = m.keys := by
  unfold Values.nonzero Values.keys
  rw [List.filter_eq_self.mpr]
  intro e he
  simp [h e he]

variable {P : User → Prop} {Q : Text → Prop}

/-- A name that goes was offered. -/
theorem Mid.offered (h : Mid us r r' us [] p) (hP : ∀ u, u.uid ≠ 0 → P u)
    (hQ : ∀ g, ¬ Rooted us g → Q g) (hk : k ∈ p.dlusers.keys) : Offered us P Q r k := by
  obtain ⟨v, hm⟩ := mem_keys.mp hk
  obtain ⟨-, ⟨u, hu, hs, he⟩ | ⟨g, he, hpos, hroot⟩⟩ := h.gone _ hm
  · exact Or.inl ⟨u, hu, he.symm, hs.1, hP u hs.uid⟩
  · exact Or.inr ⟨g, he, hpos, hQ g hroot⟩

/-- A user that stays is not among those that go. -/
theorem Mid.not_gone (ht : Tidy us) (hn : (us.map User.name).Nodup) (h : Mid us r r' us [] p)
    (hu : u ∈ us) (hs : shows r' u = true) : u.name ∉ p.dlusers.keys := by
  intro hk
  obtain ⟨v, hm⟩ := mem_keys.mp hk
  obtain ⟨-, ⟨w, hw, hw', he⟩ | ⟨g, he, hpos, -⟩⟩ := h.gone _ hm
  · obtain rfl := unique_name hn hu hw he
    exact absurd (hs.symm.trans hw'.2) nofun
  · exact ht.ne_name hu (occurs_of_cnt hpos) he.symm

/-- The names that come are offered from now on, and were not offered before if they did not go. -/
theorem Mid.fresh (ht : Tidy us) (hn : (us.map User.name).Nodup) (h : Mid us r r' us [] p)
    (hP : ∀ u, u.uid ≠ 0 → P u) (hQ : ∀ g, ¬ Rooted us g → Q g) (hk : k ∈ p.alusers.keys) :
    Offered us P Q r' k ∧ (Offered us P Q r k → k ∈ p.dlusers.keys) := by
  obtain ⟨v, hm⟩ := mem_keys.mp hk
  obtain ⟨-, ⟨u, hu, hs, he⟩ | ⟨g, he, hocc, -, hroot, hdl⟩⟩ := h.come _ hm
  · dsimp only at he
    subst he
    refine ⟨Or.inl ⟨u, hu, rfl, hs.1, hP u hs.uid⟩, ?_⟩
    rintro (⟨w, hw, he, hw', -⟩ | ⟨g, he, hpos, -⟩)
    · obtain rfl := unique_name hn hw hu he
      exact absurd (hw'.symm.trans hs.2) nofun
    · exact absurd he.symm (ht.ne_name hu (occurs_of_cnt hpos))
  · dsimp only at he
    subst he
    have hpos := (h.groups g hocc).mp (Or.inl hk)
    rw [mixed_end] at hpos
    refine ⟨Or.inr ⟨g, rfl, hpos, hQ g hroot⟩, ?_⟩
    rintro (⟨w, hw, he, -⟩ | ⟨g', he, hpos, -⟩)
    · exact absurd he.symm (ht.ne_name hw hocc)
    · cases he
      exact hdl hpos

/-- **One list**: what is deleted and added makes it that of the other range. -/
theorem Mid.holds (ht : Tidy us) (hn : (us.map User.name).Nodup) (h : Mid us r r' us [] p)
    (hP : ∀ u, u.uid ≠ 0 → P u) (hQ : ∀ g, ¬ Rooted us g → Q g)
    (hi : Lists.Holds items (Offered us P Q r)) :
    Lists.Holds ((items.filter fun item => item ∉ p.dlusers.keys) ++ p.alusers.keys)
      (Offered us P Q r') := by
  have hkept (k : Text) : k ∈ (items.filter fun item => item ∉ p.dlusers.keys) ↔
      Offered us P Q r k ∧ k ∉ p.dlusers.keys := by
    rw [List.mem_filter, hi.mem, decide_eq_true_iff]
  refine ⟨(hi.nodup.filter _).append h.alNodup fun k hk hal => ?_, fun k => ?_⟩
  · obtain ⟨hk, hdl⟩ := (hkept k).mp hk
    exact hdl ((h.fresh ht hn hP hQ hal).2 hk)
  rw [List.mem_append, hkept]
  constructor
  · rintro (⟨⟨u, hu, rfl, hs, hPu⟩ | ⟨g, rfl, hpos, hq⟩, hdl⟩ | hal)
    · refine Or.inl ⟨u, hu, rfl, ?_, hPu⟩
      by_contra hs'
      exact hdl (h.leaves u hu ⟨hs, Bool.eq_false_iff.mpr hs'⟩)
    · have := (h.groups g (occurs_of_cnt hpos)).mp (Or.inr ⟨hpos, hdl⟩)
      rw [mixed_end] at this
      exact Or.inr ⟨g, rfl, this, hq⟩
    · exact (h.fresh ht hn hP hQ hal).1
  · rintro (⟨u, hu, rfl, hs, hPu⟩ | ⟨g, rfl, hpos, hq⟩)
    · by_cases hs' : shows r u = true
      · exact Or.inl ⟨Or.inl ⟨u, hu, rfl, hs', hPu⟩, h.not_gone ht hn hu hs⟩
      · exact Or.inr (h.enters u hu ⟨hs, Bool.eq_false_iff.mpr hs'⟩)
    · have hocc := occurs_of_cnt hpos
      rw [← mixed_end r] at hpos
      obtain hal | ⟨hcnt, hdl⟩ := (h.groups g hocc).mpr hpos
      · exact Or.inr hal
      · exact Or.inl ⟨Or.inr ⟨g, rfl, hcnt, hq⟩, hdl⟩

/-! ## The runs -/

/-- A change of the range keeps the invariant. -/
theorem slotMinMaxUID_inv (ht : Tidy us) (hn : (us.map User.name).Nodup) {s : State} (h : s.Inv us)
    (r' : Range) : ∃ s', slotMinMaxUID us s r' = some s' ∧ s'.Inv us ∧ s'.range = r' := by
  have hstart : Mid us s.range r' [] us ⟨s.groupmap, [], []⟩ := by
    refine ⟨?_, nofun, nofun, nofun, nofun, fun g _ => ?_, List.nodup_nil, List.nodup_nil⟩
    · rw [funext (mixed_start s.range r' us)]
      exact h.groupmap
    · rw [mixed_start]
      simp [Values.keys]
  obtain ⟨p, hp, hmid⟩ := pass_spec ht (List.nil_append us).symm hstart
  have hdl : p.dlusers.nonzero = p.dlusers.keys := nonzero_eq_keys fun e he => (hmid.gone e he).1
  have hal : p.alusers.nonzero = p.alusers.keys := nonzero_eq_keys fun e he => (hmid.come e he).1
  have hdel := deleteFirst_eq h.npuserlv.nodup hmid.dlNodup fun k hk =>
    (h.npuserlv.mem k).mpr (hmid.offered (fun _ h => h) (fun _ h => h) hk)
  unfold slotMinMaxUID delUsers
  rw [hp]
  dsimp only
  rw [hdl, hdel]
  refine ⟨_, rfl, ⟨?_, ?_, ?_, ?_⟩, rfl⟩
  · rw [← funext (mixed_end s.range r' us)]
    exact hmid.counts
  · exact hmid.holds ht hn (fun _ _ => trivial) (fun _ _ => trivial) h.optinlv
  · exact hmid.holds ht hn (fun _ _ => trivial) (fun _ _ => trivial) h.optoutlv
  · show Lists.Holds (_ ++ p.alusers.nonzero) _
    rw [hal]
    exact hmid.holds ht hn (fun _ h => h) (fun _ h => h) h.npuserlv

theorem changes_inv (ht : Tidy us) (hn : (us.map User.name).Nodup) (rs : List Range) {s : State}
    (h : s.Inv us) : ∃ s', changes us rs s = some s' ∧ s'.Inv us ∧
      s'.range = (s.range :: rs).getLast (List.cons_ne_nil _ rs) := by
  induction rs generalizing s with
  | nil => exact ⟨s, rfl, h, rfl⟩
  | cons r rs ih =>
    obtain ⟨s₁, he, h₁, hr⟩ := slotMinMaxUID_inv ht hn h r
    obtain ⟨s', hrun, h', hlast⟩ := ih h₁
    refine ⟨s', ?_, h', ?_⟩
    · unfold changes
      rw [he]
      exact hrun
    · rw [hlast, hr, List.getLast_cons_cons]

/-! ## The users -/

theorem insertUser_perm (u : User) (us : List User) : (insertUser u us).Perm (u :: us) := by
  induction us with
  | nil => exact List.Perm.refl _
  | cons v us ih =>
    unfold insertUser
    split
    · exact List.Perm.refl _
    · exact (ih.cons v).trans (List.Perm.swap u v us)

theorem readPasswd_nodup (pws : List Passwd) {m : List User × Primary}
    (hn : (m.1.map User.name).Nodup) : ((readPasswd pws m).1.map User.name).Nodup := by
  induction pws generalizing m with
  | nil => exact hn
  | cons ps pws ih =>
    obtain ⟨us, tg⟩ := m
    unfold readPasswd
    split
    · exact ih hn
    · rename_i hnot
      refine ih (((insertUser_perm _ us).map User.name).nodup_iff.mpr (List.nodup_cons.mpr ⟨?_, hn⟩))
      intro hm
      obtain ⟨u, hu, he⟩ := List.mem_map.mp hm
      exact hnot (List.any_eq_true.mpr ⟨u, hu, decide_eq_true he⟩)

theorem names_foldl {f : List User → Text → List User}
    (hf : ∀ us un, (f us un).map User.name = us.map User.name) (names : List Text) (us : List User) :
    (names.foldl f us).map User.name = us.map User.name := by
  induction names generalizing us with
  | nil => rfl
  | cons un names ih => rw [List.foldl_cons, ih, hf]

theorem names_map {f : User → User} (hf : ∀ u, (f u).name = u.name) (us : List User) :
    (us.map f).map User.name = us.map User.name := by
  rw [List.map_map]
  exact List.map_congr_left fun u _ => hf u

theorem names_appendGroup (gn : Text) (us : List User) (un : Text) :
    (appendGroup un gn us).map User.name = us.map User.name :=
  names_map (fun u => by split <;> rfl) us

theorem names_addMember (gn : Text) (us : List User) (un : Text) :
    (addMember gn us un).map User.name = us.map User.name :=
  names_map (fun u => by split <;> rfl) us

/-- Only the groups of the users change. -/
theorem names_readGroup (grs : List Group) (us : List User) (tg : Primary) :
    (readGroup grs (us, tg)).map User.name = us.map User.name := by
  induction grs generalizing us tg with
  | nil => rfl
  | cons grp grs ih =>
    unfold readGroup
    dsimp only
    split
    · rw [ih]
      split
      · split
        · rfl
        · exact names_foldl (names_appendGroup _) _ us
      · rfl
    · rw [ih, names_foldl (names_addMember _)]
      split
      · split
        · rfl
        · exact names_foldl (names_appendGroup _) _ us
      · rfl

theorem usermap_nodup (pws : List Passwd) (grs : List Group) :
    ((usermap pws grs).map User.name).Nodup := by
  have hsame := names_readGroup grs (readPasswd pws ([], [])).1 (readPasswd pws ([], [])).2
  exact hsame ▸ readPasswd_nodup pws List.nodup_nil

/-- **Incremental lists are fresh ones**, when the databases are tidy. -/
theorem incremental (pws : List Passwd) (grs : List Group) (ht : Tidy (usermap pws grs)) :
    Incremental (usermap pws grs) := by
  intro r rs
  have hn := usermap_nodup pws grs
  obtain ⟨s, hrun, hinv, hr⟩ := changes_inv ht hn rs (propagateUsers_inv ht hn r)
  exact ⟨s, hrun, hinv.same (propagateUsers_inv ht hn s.range) rfl, hr⟩

/-- The users `a` and `b`, of which one has the UID 0, and the group `g` of both. -/
def pair (a b : BitVec 32) : List Passwd × List Group :=
  ([⟨[97], a, 1⟩, ⟨[98], b, 2⟩], [⟨[103], 3, [[97], [98]]⟩])

theorem usermap_pair (a b : BitVec 32) : usermap (pair a b).1 (pair a b).2 =
    [⟨[97], a.toInt, [[103]]⟩, ⟨[98], b.toInt, [[103]]⟩] := rfl

theorem tidy_pair : Tidy (usermap (pair 0 1000).1 (pair 0 1000).2) := by
  rw [usermap_pair]
  refine ⟨by decide, fun done u rest hus g hg huid _ => ?_⟩
  cases done with
  | nil =>
    obtain ⟨rfl, -⟩ := List.cons.inj hus
    exact absurd rfl huid
  | cons v done =>
    obtain ⟨rfl, htail⟩ := List.cons.inj hus
    have hu : u ∈ [(⟨[98], (1000 : BitVec 32).toInt, [[103]]⟩ : User)] :=
      htail ▸ List.mem_append_right done List.mem_cons_self
    obtain rfl := List.mem_singleton.mp hu
    exact ⟨_, List.mem_cons_self, rfl, hg⟩

theorem incremental_pair : Incremental (usermap (pair 0 1000).1 (pair 0 1000).2) :=
  incremental _ _ tidy_pair

/-- Where the user with the UID 0 comes second, the group is missed when the other one comes. -/
theorem not_incremental : ¬ Incremental (usermap (pair 1000 0).1 (pair 1000 0).2) := by
  intro h
  obtain ⟨s, hrun, hsame, -⟩ := h ⟨1, 9⟩ [⟨1, 2000⟩]
  rw [usermap_pair] at hrun hsame
  obtain rfl := Option.some.inj hrun
  have := hsame.npuserlv.length_eq
  revert this
  decide

end Kdm.Kcm
