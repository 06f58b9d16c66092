import Kdm.Kcm.Users

/-!
# What the lists offer

The maps of the loops, and what the loop of `propagateUsers` comes to: the groups are counted by their
members that are shown, and each list has the names that it should offer, once.

Principal result: `propagateUsers_inv`.
-/

namespace Kdm.Kcm

variable {m : Values} {k g : Text} {v uid : Int} {us done rest : List User} {u : User} {r r' : Range}
  {c : Text → Nat} {gs : List Text}

/-! ## The maps -/

def Values.keys (m : Values) : List Text := m.map Prod.fst

theorem mem_keys : k ∈ m.keys ↔ ∃ v, (k, v) ∈ m := by
  simp [Values.keys]

theorem mem_insert {e : Text × Int} :
    e ∈ m.insert k v ↔ e = (k, v) ∨ e ∈ m ∧ e.1 ≠ k := by
  simp [Values.insert]

theorem mem_keys_insert {k' : Text} : k' ∈ (m.insert k v).keys ↔ k' = k ∨ k' ∈ m.keys := by
  rw [mem_keys, mem_keys]
  constructor
  · rintro ⟨w, hw⟩
    obtain he | ⟨hm, -⟩ := mem_insert.mp hw
    · exact Or.inl (Prod.mk.inj he).1
    · exact Or.inr ⟨w, hm⟩
  · intro h
    by_cases hk : k' = k
    · exact ⟨v, mem_insert.mpr (Or.inl (by rw [hk]))⟩
    · obtain ⟨w, hw⟩ := h.resolve_left hk
      exact ⟨w, mem_insert.mpr (Or.inr ⟨hw, hk⟩)⟩

theorem nodup_insert (h : m.keys.Nodup) (k : Text) (v : Int) : (m.insert k v).keys.Nodup := by
  have hk : k ∉ (m.filter fun e => e.1 ≠ k).map Prod.fst := by
    intro hm
    obtain ⟨e, he, rfl⟩ := List.mem_map.mp hm
    have := (List.mem_filter.mp he).2
    simp at this
  have hs : ((m.filter fun e => e.1 ≠ k).map Prod.fst).Nodup :=
    h.sublist (List.filter_sublist.map Prod.fst)
  exact List.nodup_cons.mpr ⟨hk, hs⟩

/-- A map of the counts: a group that nobody is in has no entry. -/
def counted (c : Text → Nat) : GroupMap := fun g => if c g = 0 then none else some (c g)

theorem counted_set (c : Text → Nat) (g : Text) (n : Nat) (c' : Text → Nat) (hg : c' g = n)
    (ho : ∀ g', g' ≠ g → c' g' = c g') :
    (counted c).set g (if n = 0 then none else some n) = counted c' := by
  funext g'
  unfold GroupMap.set counted
  by_cases h : g' = g
  · subst h
    rw [if_pos rfl, hg]
  · rw [if_neg h, ho g' h]

/-- The keys of a map are those of another one and some more, with a value of their own. -/
structure Adds (m m' : Values) (new : Text → Prop) (uid : Int) : Prop where
  keys : ∀ k, k ∈ m'.keys ↔ k ∈ m.keys ∨ ∃ g, new g ∧ k = AT :: g
  values : ∀ e ∈ m', e ∈ m ∨ ∃ g, new g ∧ e = (AT :: g, -uid)
  nodup : m.keys.Nodup → m'.keys.Nodup

theorem Adds.refl (m : Values) (uid : Int) : Adds m m (fun _ => False) uid :=
  ⟨fun _ => by simp, fun _ he => Or.inl he, id⟩

theorem Adds.congr {m' : Values} {new new' : Text → Prop} (h : Adds m m' new uid)
    (hiff : ∀ g, new g ↔ new' g) : Adds m m' new' uid := by
  obtain rfl : new = new' := funext fun g => propext (hiff g)
  exact h

theorem Adds.insert {m' : Values} {new : Text → Prop} (g : Text)
    (h : Adds (m.insert (AT :: g) (-uid)) m' new uid) :
    Adds m m' (fun g' => g' = g ∨ new g') uid := by
  refine ⟨fun k => ?_, fun e he => ?_, fun hn => h.nodup (nodup_insert hn _ _)⟩
  · rw [h.keys, mem_keys_insert]
    constructor
    · rintro ((rfl | hk) | ⟨g', hg', rfl⟩)
      · exact Or.inr ⟨g, Or.inl rfl, rfl⟩
      · exact Or.inl hk
      · exact Or.inr ⟨g', Or.inr hg', rfl⟩
    · rintro (hk | ⟨g', rfl | hg', rfl⟩)
      · exact Or.inl (Or.inr hk)
      · exact Or.inl (Or.inl rfl)
      · exact Or.inr ⟨g', hg', rfl⟩
  · obtain he | ⟨g', hg', rfl⟩ := h.values e he
    · obtain rfl | ⟨he, -⟩ := mem_insert.mp he
      · exact Or.inr ⟨g, Or.inl rfl, rfl⟩
      · exact Or.inl he
    · exact Or.inr ⟨g', Or.inr hg', rfl⟩

/-- A user that comes is counted in its groups, and brings along those that were empty. -/
theorem enter_spec (gs : List Text) (c : Text → Nat) (m : Values) (uid : Int) :
    ∃ m', enter uid gs (counted c, m) = (counted fun g => c g + gs.count g, m') ∧
      Adds m m' (fun g => g ∈ gs ∧ c g = 0) uid := by
  induction gs generalizing c m with
  | nil => exact ⟨m, rfl, (Adds.refl m uid).congr fun g => by simp⟩
  | cons g gs ih =>
    have hset : (counted c).set g (some (c g + 1)) = counted fun g' => c g' + [g].count g' := by
      refine counted_set c g (c g + 1) _ (by simp) fun g' hne => ?_
      simp [Ne.symm hne]
    have hcount (g' : Text) : c g' + [g].count g' + gs.count g' = c g' + (g :: gs).count g' := by
      rw [List.count_singleton, List.count_cons]
      omega
    have hpos (g' : Text) : c g' + [g].count g' = 0 ↔ c g' = 0 ∧ g' ≠ g := by
      rw [List.count_singleton]
      by_cases h : g = g'
      · simp [h]
      · simp [h, Ne.symm h]
    unfold enter
    by_cases h0 : c g = 0
    · have hnone : counted c g = none := if_pos h0
      rw [hnone]
      dsimp only
      rw [h0, Nat.zero_add] at hset
      obtain ⟨m', he, hadds⟩ := ih (fun g' => c g' + [g].count g') (m.insert (AT :: g) (-uid))
      refine ⟨m', ?_, hadds.insert g |>.congr fun g' => ?_⟩
      · rw [hset, he]
        simp only [hcount]
      · rw [hpos, List.mem_cons]
        constructor
        · rintro (rfl | ⟨hm, h, hne⟩)
          · exact ⟨Or.inl rfl, h0⟩
          · exact ⟨Or.inr hm, h⟩
        · rintro ⟨hm, h⟩
          by_cases hg : g' = g
          · exact Or.inl hg
          · exact Or.inr ⟨hm.resolve_left hg, h, hg⟩
    · have hsome : counted c g = some (c g) := if_neg h0
      rw [hsome]
      dsimp only
      obtain ⟨m', he, hadds⟩ := ih (fun g' => c g' + [g].count g') m
      refine ⟨m', ?_, hadds.congr fun g' => ?_⟩
      · rw [hset, he]
        simp only [hcount]
      · rw [hpos, List.mem_cons]
        constructor
        · rintro ⟨hm, h, -⟩
          exact ⟨Or.inr hm, h⟩
        · rintro ⟨hm, h⟩
          have hne : g' ≠ g := fun he => h0 (he ▸ h)
          exact ⟨hm.resolve_left hne, h, hne⟩

/-- A user that goes finds all of its groups, and takes along those that nobody else is in. -/
theorem leave_spec (gs : List Text) (c : Text → Nat) (m : Values) (uid : Int)
    (hc : ∀ g, gs.count g ≤ c g) :
    ∃ m', leave uid gs (counted c, m) = some (counted fun g => c g - gs.count g, m') ∧
      Adds m m' (fun g => g ∈ gs ∧ c g = gs.count g) uid := by
  induction gs generalizing c m with
  | nil => exact ⟨m, rfl, (Adds.refl m uid).congr fun g => by simp⟩
  | cons g gs ih =>
    have hg := hc g
    rw [List.count_cons_self] at hg
    have hcount (g' : Text) : (g :: gs).count g' = [g].count g' + gs.count g' := by
      rw [List.count_singleton, List.count_cons, Nat.add_comm]
    have hself : [g].count g = 1 := List.count_singleton_self
    have hother {g' : Text} (hne : g' ≠ g) : [g].count g' = 0 := by
      simp [Ne.symm hne]
    have hset : (counted c).set g (if c g - 1 = 0 then none else some (c g - 1)) =
        counted fun g' => c g' - [g].count g' := by
      refine counted_set c g (c g - 1) _ (by rw [hself]) fun g' hne => ?_
      rw [hother hne, Nat.sub_zero]
    have hsome : counted c g = some (c g) := if_neg (by omega)
    have hih (g' : Text) : gs.count g' ≤ c g' - [g].count g' := by
      have := hc g'
      rw [hcount] at this
      omega
    have hsub (g' : Text) : c g' - [g].count g' - gs.count g' = c g' - (g :: gs).count g' := by
      rw [hcount]
      omega
    unfold leave
    rw [hsome]
    dsimp only
    by_cases h1 : c g - 1 = 0
    · rw [if_pos h1] at hset ⊢
      obtain ⟨m', he, hadds⟩ := ih (fun g' => c g' - [g].count g') (m.insert (AT :: g) (-uid)) hih
      refine ⟨m', ?_, hadds.insert g |>.congr fun g' => ?_⟩
      · rw [hset, he]
        simp only [hsub]
      · rw [List.mem_cons, hcount]
        have hgs : g ∉ gs := by
          rw [← List.count_eq_zero]
          omega
        constructor
        · rintro (rfl | ⟨hm, h⟩)
          · exact ⟨Or.inl rfl, by omega⟩
          · have hne : g' ≠ g := fun he => hgs (he ▸ hm)
            rw [hother hne] at h ⊢
            exact ⟨Or.inr hm, by omega⟩
        · rintro ⟨hm, h⟩
          by_cases hgg : g' = g
          · exact Or.inl hgg
          · rw [hother hgg] at h ⊢
            exact Or.inr ⟨hm.resolve_left hgg, by omega⟩
    · rw [if_neg h1] at hset ⊢
      obtain ⟨m', he, hadds⟩ := ih (fun g' => c g' - [g].count g') m hih
      refine ⟨m', ?_, hadds.congr fun g' => ?_⟩
      · rw [hset, he]
        simp only [hsub]
      · rw [List.mem_cons, hcount]
        have hcg := hc g'
        rw [hcount] at hcg
        constructor
        · rintro ⟨hm, h⟩
          have := List.count_pos_iff.mpr hm
          exact ⟨Or.inr hm, by omega⟩
        · rintro ⟨hm, h⟩
          by_cases hgg : g' = g
          · subst hgg
            have : g' ∈ gs := by
              rw [← List.count_pos_iff]
              omega
            exact ⟨this, by omega⟩
          · rw [hother hgg] at h ⊢
            exact ⟨hm.resolve_left hgg, by omega⟩

/-! ## What is offered -/

/-- How often a group is counted. -/
def cnt (r : Range) : List User → Text → Nat
  | [], _ => 0
  | u :: us, g => (if shows r u then u.groups.count g else 0) + cnt r us g

theorem cnt_append (r : Range) (done rest : List User) (g : Text) :
    cnt r (done ++ rest) g = cnt r done g + cnt r rest g := by
  induction done with
  | nil => exact (Nat.zero_add _).symm
  | cons u done ih =>
    rw [List.cons_append, cnt, cnt, ih, Nat.add_assoc]

theorem cnt_pos : 0 < cnt r us g ↔ ∃ u ∈ us, shows r u = true ∧ g ∈ u.groups := by
  induction us with
  | nil => exact iff_of_false (Nat.lt_irrefl 0) nofun
  | cons u us ih =>
    rw [cnt, List.exists_mem_cons_iff, ← ih, ← List.count_pos_iff]
    by_cases h : shows r u = true
    · rw [if_pos h, and_iff_right h]
      omega
    · rw [if_neg h, Nat.zero_add, or_iff_right fun hs => h hs.1]

/-- A group has a member with the UID 0. -/
def Rooted (us : List User) (g : Text) : Prop := ∃ v ∈ us, v.uid = 0 ∧ g ∈ v.groups

theorem shows_root {u : User} (h : u.uid = 0) (r : Range) : shows r u = true := by
  unfold shows
  rw [h]
  rfl

/-- Somebody is in the group. -/
def Occurs (us : List User) (g : Text) : Prop := ∃ v ∈ us, g ∈ v.groups

theorem occurs_of_cnt (h : 0 < cnt r us g) : Occurs us g := by
  obtain ⟨u, hu, -, hg⟩ := cnt_pos.mp h
  exact ⟨u, hu, hg⟩

/-- What a list offers: the users that are shown and the groups with a member that is shown, as far as
the list takes them. -/
def Offered (us : List User) (P : User → Prop) (Q : Text → Prop) (r : Range) (k : Text) : Prop :=
  (∃ u ∈ us, u.name = k ∧ shows r u = true ∧ P u) ∨ ∃ g, k = AT :: g ∧ 0 < cnt r us g ∧ Q g

theorem unique_name (hn : (us.map User.name).Nodup) {u w : User} (hu : u ∈ us) (hw : w ∈ us)
    (h : u.name = w.name) : u = w :=
  List.inj_on_of_nodup_map hn hu hw h

/-- What the loop of `propagateUsers` has collected. -/
structure Collected (us : List User) (r : Range) (done : List User) (s : GroupMap × Values) :
    Prop where
  counts : s.1 = counted (cnt r done)
  keys : ∀ k, k ∈ s.2.keys ↔ Offered done (fun _ => True) (fun _ => True) r k
  values : ∀ e ∈ s.2, (∃ u ∈ done, e = (u.name, u.uid)) ∨
    ∃ g, e.1 = AT :: g ∧ Occurs us g ∧ (e.2 = 0 ↔ Rooted us g)
  nodup : s.2.keys.Nodup

theorem offered_snoc (P : User → Prop) (Q : Text → Prop) (k : Text) :
    Offered (done ++ [u]) P Q r k ↔ Offered done P Q r k ∨ (shows r u = true ∧
      ((u.name = k ∧ P u) ∨ ∃ g ∈ u.groups, k = AT :: g ∧ Q g)) := by
  unfold Offered
  constructor
  · rintro (⟨w, hw, hk, hs, hp⟩ | ⟨g, rfl, hpos, hq⟩)
    · obtain hw | hw := List.mem_append.mp hw
      · exact Or.inl (Or.inl ⟨w, hw, hk, hs, hp⟩)
      · obtain rfl := List.mem_singleton.mp hw
        exact Or.inr ⟨hs, Or.inl ⟨hk, hp⟩⟩
    · obtain ⟨w, hw, hs, hg⟩ := cnt_pos.mp hpos
      obtain hw | hw := List.mem_append.mp hw
      · exact Or.inl (Or.inr ⟨g, rfl, cnt_pos.mpr ⟨w, hw, hs, hg⟩, hq⟩)
      · obtain rfl := List.mem_singleton.mp hw
        exact Or.inr ⟨hs, Or.inr ⟨g, hg, rfl, hq⟩⟩
  · rintro ((⟨w, hw, hk, hs, hp⟩ | ⟨g, rfl, hpos, hq⟩) | ⟨hs, ⟨hk, hp⟩ | ⟨g, hg, rfl, hq⟩⟩)
    · exact Or.inl ⟨w, List.mem_append_left _ hw, hk, hs, hp⟩
    · obtain ⟨w, hw, hs, hg⟩ := cnt_pos.mp hpos
      exact Or.inr ⟨g, rfl, cnt_pos.mpr ⟨w, List.mem_append_left _ hw, hs, hg⟩, hq⟩
    · exact Or.inl ⟨u, List.mem_append_right _ (List.mem_singleton_self u), hk, hs, hp⟩
    · exact Or.inr ⟨g, rfl,
        cnt_pos.mpr ⟨u, List.mem_append_right _ (List.mem_singleton_self u), hs, hg⟩, hq⟩

theorem cnt_snoc (r : Range) (done : List User) (u : User) (g : Text) :
    cnt r (done ++ [u]) g = cnt r done g + if shows r u then u.groups.count g else 0 := by
  rw [cnt_append]
  rfl

/-- The value of a group is 0 just if a member has the UID 0: such a member is met first. -/
theorem collect_step (ht : Tidy us) (hus : us = done ++ u :: rest) {s : GroupMap × Values}
    (hc : Collected us r done s) (hs : shows r u = true) :
    Collected us r (done ++ [u]) (enter u.uid u.groups (s.1, s.2.insert u.name u.uid)) := by
  obtain ⟨m', he, hadds⟩ := enter_spec u.groups (cnt r done) (s.2.insert u.name u.uid) u.uid
  have hmem : u ∈ us := hus ▸ List.mem_append_right done List.mem_cons_self
  rw [hc.counts, he]
  refine ⟨?_, fun k => ?_, fun e hm => ?_, hadds.nodup (nodup_insert hc.nodup _ _)⟩
  · dsimp only
    congr 1
    funext g
    rw [cnt_snoc, if_pos hs]
  · rw [hadds.keys, mem_keys_insert, hc.keys, offered_snoc]
    constructor
    · rintro ((rfl | hk) | ⟨g, ⟨hg, -⟩, rfl⟩)
      · exact Or.inr ⟨hs, Or.inl ⟨rfl, trivial⟩⟩
      · exact Or.inl hk
      · exact Or.inr ⟨hs, Or.inr ⟨g, hg, rfl, trivial⟩⟩
    · rintro (hk | ⟨-, ⟨hk, -⟩ | ⟨g, hg, rfl, -⟩⟩)
      · exact Or.inl (Or.inr hk)
      · exact Or.inl (Or.inl hk.symm)
      · by_cases h0 : cnt r done g = 0
        · exact Or.inr ⟨g, ⟨hg, h0⟩, rfl⟩
        · exact Or.inl (Or.inr (Or.inr ⟨g, rfl, Nat.pos_of_ne_zero h0, trivial⟩))
  · obtain hm | ⟨g, ⟨hg, h0⟩, rfl⟩ := hadds.values e hm
    · obtain rfl | ⟨hm, -⟩ := mem_insert.mp hm
      · exact Or.inl ⟨u, List.mem_append_right _ (List.mem_singleton_self u), rfl⟩
      · obtain ⟨w, hw, he⟩ | h := hc.values e hm
        · exact Or.inl ⟨w, List.mem_append_left _ hw, he⟩
        · exact Or.inr h
    · refine Or.inr ⟨g, rfl, ⟨u, hmem, hg⟩, ?_⟩
      dsimp only
      rw [Int.neg_eq_zero]
      constructor
      · intro huid
        exact ⟨u, hmem, huid, hg⟩
      · intro hroot
        by_contra huid
        obtain ⟨v, hv, hv0, hvg⟩ := ht.rootFirst done u rest hus g hg huid hroot
        have := cnt_pos.mpr ⟨v, hv, shows_root hv0 r, hvg⟩
        omega

theorem collect_spec (ht : Tidy us) (hus : us = done ++ rest) {s : GroupMap × Values}
    (hc : Collected us r done s) : Collected us r us (collect r rest s) := by
  induction rest generalizing done s with
  | nil =>
    rw [List.append_nil] at hus
    rw [hus] at hc ⊢
    exact hc
  | cons u rest ih =>
    have hus' : us = (done ++ [u]) ++ rest := by
      rw [List.append_assoc]
      exact hus
    obtain ⟨gm, m⟩ := s
    unfold collect
    by_cases hs : shows r u = true
    · rw [if_pos hs]
      exact ih hus' (collect_step ht hus hc hs)
    · rw [if_neg hs]
      refine ih hus' ⟨?_, fun k => ?_, fun e he => ?_, hc.nodup⟩
      · rw [hc.counts]
        congr 1
        funext g
        rw [cnt_snoc, if_neg hs, Nat.add_zero]
      · rw [hc.keys, offered_snoc, or_iff_left fun h => hs h.1]
      · obtain ⟨w, hw, he⟩ | h := hc.values e he
        · exact Or.inl ⟨w, List.mem_append_left _ hw, he⟩
        · exact Or.inr h

/-! ## The state -/

/-- A list has each name that it should offer, once. -/
structure Lists.Holds (items : List Text) (offered : Text → Prop) : Prop where
  nodup : items.Nodup
  mem : ∀ k, k ∈ items ↔ offered k

theorem Lists.Holds.perm {items items' : List Text} {offered : Text → Prop}
    (h : Lists.Holds items offered) (h' : Lists.Holds items' offered) : items.Perm items' :=
  (List.perm_ext_iff_of_nodup h.nodup h'.nodup).mpr fun k => (h.mem k).trans (h'.mem k).symm

/-- The counts and the lists are those of the range. -/
structure State.Inv (us : List User) (s : State) : Prop where
  groupmap : s.groupmap = counted (cnt s.range us)
  optinlv : Lists.Holds s.lists.optinlv (Offered us (fun _ => True) (fun _ => True) s.range)
  optoutlv : Lists.Holds s.lists.optoutlv (Offered us (fun _ => True) (fun _ => True) s.range)
  npuserlv : Lists.Holds s.lists.npuserlv (Offered us (fun u => u.uid ≠ 0) (fun g => ¬ Rooted us g)
    s.range)

theorem State.Inv.same {s s' : State} (h : s.Inv us) (h' : s'.Inv us) (hr : s.range = s'.range) :
    Same s s' := by
  obtain ⟨h1, h2, h3, h4⟩ := h
  rw [hr] at h1 h2 h3 h4
  exact ⟨h1.trans h'.groupmap.symm, h2.perm h'.optinlv, h3.perm h'.optoutlv, h4.perm h'.npuserlv⟩

theorem mem_nonzero : k ∈ m.nonzero ↔ ∃ v, (k, v) ∈ m ∧ v ≠ 0 := by
  simp [Values.nonzero]

theorem nodup_nonzero (h : m.keys.Nodup) : m.nonzero.Nodup :=
  h.sublist (List.filter_sublist.map Prod.fst)

theorem propagateUsers_inv (ht : Tidy us) (hn : (us.map User.name).Nodup) (r : Range) :
    (propagateUsers us r).Inv us := by
  have hstart : Collected us r [] (fun _ => none, []) := by
    refine ⟨rfl, fun k => ?_, nofun, List.nodup_nil⟩
    refine iff_of_false nofun ?_
    rintro (⟨w, hw, -⟩ | ⟨g, -, hpos, -⟩)
    · cases hw
    · exact absurd hpos (Nat.lt_irrefl 0)
  have hc := collect_spec ht (List.nil_append us).symm hstart
  refine ⟨hc.counts, ⟨hc.nodup, hc.keys⟩, ⟨hc.nodup, hc.keys⟩, nodup_nonzero hc.nodup, fun k => ?_⟩
  show k ∈ Values.nonzero _ ↔ _
  rw [mem_nonzero]
  constructor
  · rintro ⟨v, hm, hv⟩
    obtain hk := (hc.keys k).mp (mem_keys.mpr ⟨v, hm⟩)
    obtain ⟨w, hw, he⟩ | ⟨g, hg, hocc, hroot⟩ := hc.values _ hm
    · cases he
      obtain ⟨u, hu, hname, hs, -⟩ | ⟨g, hname, hpos, -⟩ := hk
      · obtain rfl := unique_name hn hu hw hname
        exact Or.inl ⟨u, hu, rfl, hs, hv⟩
      · obtain ⟨x, hx, hxg⟩ := occurs_of_cnt hpos
        exact absurd hname (ht.noAt w hw x hx g hxg)
    · dsimp only at hg hroot
      subst hg
      obtain ⟨u, hu, hname, -⟩ | ⟨g', hname, hpos, -⟩ := hk
      · obtain ⟨x, hx, hxg⟩ := hocc
        exact absurd hname (ht.noAt u hu x hx g hxg)
      · cases hname
        exact Or.inr ⟨g, rfl, hpos, fun hr => hv (hroot.mpr hr)⟩
  · intro hk
    have hkeys : k ∈ Values.keys (collect r us (fun _ => none, [])).2 := by
      rw [hc.keys]
      obtain ⟨u, hu, hname, hs, -⟩ | ⟨g, hname, hpos, -⟩ := hk
      · exact Or.inl ⟨u, hu, hname, hs, trivial⟩
      · exact Or.inr ⟨g, hname, hpos, trivial⟩
    obtain ⟨v, hm⟩ := mem_keys.mp hkeys
    refine ⟨v, hm, ?_⟩
    obtain ⟨w, hw, he⟩ | ⟨g, hg, hocc, hroot⟩ := hc.values _ hm
    · cases he
      obtain ⟨u, hu, hname, hs, huid⟩ | ⟨g, hname, hpos, -⟩ := hk
      · obtain rfl := unique_name hn hu hw hname
        exact huid
      · obtain ⟨x, hx, hxg⟩ := occurs_of_cnt hpos
        exact absurd hname (ht.noAt w hw x hx g hxg)
    · dsimp only at hg hroot
      subst hg
      obtain ⟨u, hu, hname, -⟩ | ⟨g', hname, -, hq⟩ := hk
      · obtain ⟨x, hx, hxg⟩ := hocc
        exact absurd hname (ht.noAt u hu x hx g hxg)
      · cases hname
        exact fun hv => hq (hroot.mp hv)

end Kdm.Kcm
