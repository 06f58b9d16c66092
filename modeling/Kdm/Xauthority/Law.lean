import Kdm.Xauthority.File

/-!
# What becomes of the Xauthority file

* `newEntries` — the entries of a display, one for each authorization and address.
* `kept` — the old entries that no new one is for.
* `setUserAuthorization_spec`, `removeUserAuthorization_spec` — when the file is replaced, and by
  what; it stays as it is when it is not.

Principal result: `userAuthorization_law`.
-/

namespace Kdm.Xauthority

open Xdmcp

variable {malloc : Nat → Bool} {host : Host} {d : Display} {auth e : Xauth} {es es' : List Xauth}
  {file : Option Stream} {w w' w'' : Writer} {k : Key}

/-! ## The entries of a display -/

/-- The entries for the addresses of the interfaces. -/
def selfEntries (host : Host) (auth : Xauth) : List Xauth :=
  (host.ifap.getD []).flatMap fun ifr =>
    match ifr with
    | none => []
    | some a => if skipped auth a.convert.1 a.convert.2 then [] else
        [auth.at a.convert.1 a.convert.2]

def numbered (name : Bytes) (auth : Xauth) : Xauth :=
  match displayNumber name with
  | none => auth
  | some number => { auth with number := number }

theorem numbered_numbered (name : Bytes) (auth : Xauth) :
    numbered name (numbered name auth) = numbered name auth := by
  unfold numbered
  cases displayNumber name <;> rfl

def localEntries (host : Host) (name : Bytes) (auth : Xauth) : List Xauth :=
  selfEntries host (numbered name auth) ++ [(numbered name auth).at FamilyLocal.toNat
    host.displayname]

def remoteEntries (host : Host) (peer : Option Saddr) (name : Bytes) (auth : Xauth) : List Xauth :=
  match peer with
  | none => []
  | some a =>
    if (convertAuthAddr a).1 ≠ FamilyLocal.toNat then
      [(numbered name auth).at (convertAuthAddr a).1 (convertAuthAddr a).2]
    else localEntries host name auth

def entriesOf (host : Host) (d : Display) (auth : Xauth) : List Xauth :=
  if d.local_ then localEntries host d.name auth else remoteEntries host d.peer d.name auth

/-- The authorizations of a display. -/
def Display.auths (d : Display) : List Xauth := d.authorizations.getD []

/-- The first magic cookie comes first. -/
def newEntries (host : Host) (d : Display) : List Xauth :=
  (d.auths.find? isMagicCookie).toList.flatMap (entriesOf host d) ++
    (d.auths.eraseP isMagicCookie).flatMap fun auth => entriesOf host d (withoutCache auth)

/-- The old entries that no new one is for. -/
def kept (new old : List Xauth) : List Xauth := old.filter fun e => e.key ∉ new.map Xauth.key

/-! ## Writing -/

/-- What the writer has appended to the file, if there is one. -/
structure Appended (file : Option Stream) (es : List Xauth) (w w' : Writer) : Prop where
  writes : w'.writes = w.writes + if file.isSome then es.length else 0
  ok : w'.ok = true ↔ w.ok = true ∧ ∀ f ∈ file, ∀ i < es.length, f.write (w.writes + i) = true
  entries : w'.ok = true → w'.file = w.file ++ if file.isSome then es else []

/-- The entries are appended and remembered. -/
structure Wrote (file : Option Stream) (es : List Xauth) (w w' : Writer) : Prop
    extends Appended file es w w' where
  addrs : ∀ k, k ∈ w'.addrs ↔ k ∈ w.addrs ∨ k ∈ es.map Xauth.key

namespace Appended

theorem refl (file : Option Stream) (w : Writer) : Appended file [] w w where
  writes := by simp
  ok := by simp
  entries := by simp

theorem trans (h : Appended file es w w') (h' : Appended file es' w' w'') :
    Appended file (es ++ es') w w'' where
  writes := by
    rw [h'.writes, h.writes]
    split <;> simp [Nat.add_assoc]
  ok := by
    rw [h'.ok, h.ok, and_assoc]
    refine and_congr_right fun _ => ?_
    constructor
    · rintro ⟨h1, h2⟩ f hf i hi
      by_cases hlt : i < es.length
      · exact h1 f hf i hlt
      · have hi' : i - es.length < es'.length := by
          rw [List.length_append] at hi
          omega
        have hw := h2 f hf (i - es.length) hi'
        rw [h.writes, hf] at hw
        simp only [Option.isSome_some, if_true] at hw
        rwa [show w.writes + es.length + (i - es.length) = w.writes + i by omega] at hw
    · intro hall
      refine ⟨fun f hf i hi => hall f hf i (by rw [List.length_append]; omega), fun f hf i hi => ?_⟩
      have hw := hall f hf (es.length + i) (by rw [List.length_append]; omega)
      rw [h.writes, hf]
      simp only [Option.isSome_some, if_true]
      rwa [Nat.add_assoc]
  entries := fun hok => by
    rw [h'.entries hok, h.entries (h'.ok.mp hok).1]
    split <;> simp

end Appended

theorem writeAuth_appended (file : Option Stream) (e : Xauth) (w : Writer) :
    Appended file [e] w (writeAuth file e w) ∧ (writeAuth file e w).addrs = w.addrs := by
  unfold writeAuth
  cases file with
  | none => exact ⟨⟨by simp, by simp, by simp⟩, rfl⟩
  | some f =>
    dsimp only
    split
    · rename_i hf
      exact ⟨⟨by simp, by simp [hf], by simp⟩, rfl⟩
    · rename_i hf
      exact ⟨⟨by simp, by simp [hf], by simp⟩, rfl⟩

namespace Wrote

theorem refl (file : Option Stream) (w : Writer) : Wrote file [] w w :=
  ⟨.refl file w, by simp⟩

theorem trans (h : Wrote file es w w') (h' : Wrote file es' w' w'') :
    Wrote file (es ++ es') w w'' where
  toAppended := h.toAppended.trans h'.toAppended
  addrs k := by
    rw [h'.addrs, h.addrs, List.map_append, List.mem_append, or_assoc]

/-- A loop writes what its rounds write. -/
theorem foldl {α : Type*} {f : Writer → α → Writer} {g : α → List Xauth}
    (hf : ∀ w a, Wrote file (g a) w (f w a)) (l : List α) (w : Writer) :
    Wrote file (l.flatMap g) w (l.foldl f w) := by
  induction l generalizing w with
  | nil => exact refl file w
  | cons a l ih => exact (hf w a).trans (ih (f w a))

end Wrote

section

variable (hmem : ∀ n, malloc n = true)
include hmem

theorem writeAddr_wrote (family : Int) (addr : Bytes) (file : Option Stream) (auth : Xauth)
    (w : Writer) :
    Wrote file [auth.at family addr] w (writeAddr malloc family addr file auth w) := by
  obtain ⟨happ, haddrs⟩ := writeAuth_appended file (auth.at family addr) w
  unfold writeAddr
  dsimp only
  split
  · rename_i hin
    refine ⟨happ, fun k => ?_⟩
    have hk : (auth.at family addr).key ∈ w.addrs := by
      unfold checkEntry at hin
      rw [haddrs] at hin
      exact of_decide_eq_true hin
    rw [haddrs]
    refine ⟨.inl, fun h => h.elim id fun h => ?_⟩
    rw [List.mem_singleton.mp h]
    exact hk
  · unfold saveEntry
    rw [if_pos (hmem _)]
    refine ⟨⟨happ.writes, happ.ok, happ.entries⟩, fun k => ?_⟩
    simp only [haddrs, List.mem_cons, List.map_cons, List.map_nil, List.not_mem_nil, or_false]
    exact or_comm

theorem defineSelf_wrote (host : Host) (file : Option Stream) (auth : Xauth) (w : Writer) :
    Wrote file (selfEntries host auth) w (defineSelf malloc host file auth w) := by
  unfold defineSelf selfEntries
  cases host.ifap with
  | none => exact .refl file w
  | some ifap =>
    refine Wrote.foldl (fun w ifr => ?_) ifap w
    cases ifr with
    | none => exact .refl file w
    | some a =>
      dsimp only
      split
      · exact .refl file w
      · exact writeAddr_wrote hmem _ _ file auth w

theorem setAuthNumber_eq (name : Bytes) (auth : Xauth) :
    setAuthNumber malloc name auth = numbered name auth := by
  unfold setAuthNumber numbered
  cases displayNumber name with
  | none => rfl
  | some number => dsimp only; rw [if_pos (hmem _)]

theorem writeLocalAuth_wrote (host : Host) (file : Option Stream) (auth : Xauth) (name : Bytes)
    (w : Writer) :
    Wrote file (localEntries host name auth) w (writeLocalAuth malloc host file auth name w) := by
  unfold writeLocalAuth
  rw [setAuthNumber_eq hmem]
  exact (defineSelf_wrote hmem host file _ w).trans (writeAddr_wrote hmem _ _ file _ _)

theorem writeDisplayAuth_wrote (host : Host) (d : Display) (file : Option Stream) (auth : Xauth)
    (w : Writer) :
    Wrote file (entriesOf host d auth) w (writeDisplayAuth malloc host d file auth w) := by
  unfold writeDisplayAuth entriesOf
  split
  · exact writeLocalAuth_wrote hmem host file auth d.name w
  · unfold writeRemoteAuth remoteEntries
    cases d.peer with
    | none => exact .refl file w
    | some a =>
      dsimp only
      rw [setAuthNumber_eq hmem]
      split
      · exact writeAddr_wrote hmem _ _ file _ w
      · have hlocal := writeLocalAuth_wrote hmem host file (numbered d.name auth) d.name w
        unfold localEntries at hlocal ⊢
        rwa [numbered_numbered] at hlocal

theorem writeAuths_wrote (host : Host) (d : Display) (f : Stream) :
    Wrote (some f) (newEntries host d) .start (writeAuths malloc host d f d.auths .start) := by
  refine Wrote.trans ?_
    (Wrote.foldl (fun w auth => writeDisplayAuth_wrote hmem host d (some f) (withoutCache auth) w)
      (d.auths.eraseP isMagicCookie) _)
  cases d.auths.find? isMagicCookie with
  | none => exact .refl _ _
  | some auth =>
    rw [Option.toList_some, List.flatMap_singleton]
    exact writeDisplayAuth_wrote hmem host d (some f) auth .start

end

/-! ## Copying the old entries -/

theorem copy_appended (f : Stream) (old : List Xauth) (w : Writer) :
    Appended (some f) (old.filter fun e => e.key ∉ w.addrs) w
        (old.foldl (fun w e => if checkEntry e w then w else writeAuth (some f) e w) w) ∧
      (old.foldl (fun w e => if checkEntry e w then w else writeAuth (some f) e w) w).addrs =
        w.addrs := by
  induction old generalizing w with
  | nil => exact ⟨.refl _ w, rfl⟩
  | cons e old ih =>
    rw [List.foldl_cons]
    by_cases hin : e.key ∈ w.addrs
    · rw [if_pos (show checkEntry e w = true from decide_eq_true hin),
        List.filter_cons_of_neg (by simpa using hin)]
      exact ih w
    · obtain ⟨happ, haddrs⟩ := writeAuth_appended (some f) e w
      obtain ⟨happ', haddrs'⟩ := ih (writeAuth (some f) e w)
      rw [haddrs] at happ' haddrs'
      rw [if_neg (show ¬ checkEntry e w = true from mt of_decide_eq_true hin),
        List.filter_cons_of_pos (by simpa using hin)]
      exact ⟨happ.trans happ', haddrs'⟩

/-- All is well with a new file that the entries `es` are written into. -/
def Complete (f : Stream) (es : List Xauth) : Prop :=
  (∀ i < es.length, f.write i = true) ∧ f.close = true

/-- What is in the new file in the end. -/
theorem endUserAuth_spec {f : Stream} {es : List Xauth} (new : List Xauth) (old : Option (List Xauth))
    (happ : Appended (some f) es .start w) (haddrs : ∀ k, k ∈ w.addrs ↔ k ∈ new.map Xauth.key) :
    ((endUserAuth old f w).1 = true ↔ Complete f (es ++ kept new (old.getD []))) ∧
      ((endUserAuth old f w).1 = true →
        (endUserAuth old f w).2 = es ++ kept new (old.getD [])) := by
  have hkept : (old.getD []).filter (fun e => e.key ∉ w.addrs) = kept new (old.getD []) := by
    unfold kept
    simp only [haddrs]
  have hcopy := happ.trans (copy_appended f (old.getD []) w).1
  rw [hkept] at hcopy
  unfold endUserAuth Complete
  simp only [Bool.and_eq_true]
  refine ⟨and_congr_left fun _ => ?_, fun h => by simpa [Writer.start] using hcopy.entries h.1⟩
  rw [hcopy.ok]
  simp [Writer.start]

/-! ## The two operations -/

/-- The new file is there, all is written, and it is moved into place. -/
def Succeeds (io : Io) (es : List Xauth) : Prop :=
  ∃ name f, startUserAuth io = some (name, f) ∧ Complete f es ∧ io.rename = true

/-- The file has the entries `es` when it was replaced, and is what it was when not. -/
structure Updates (file : Option (List Xauth)) (es : List Xauth) (r : Result) : Prop where
  replaced : r.moved = true → r.file = some es
  unchanged : r.moved = false → r.file = file

variable {io : Io} {old : Option (List Xauth)}

theorem Updates.of_not {r : Result} (hm : r.moved = false) (hf : r.file = old) :
    Updates old es r where
  replaced := fun h => by rw [hm] at h; cases h
  unchanged := fun _ => hf

theorem fallback_updates (io : Io) (host : Host) (d : Display) (auths : List Xauth)
    (old : Option (List Xauth)) (es : List Xauth) :
    (fallback io host d auths old).moved = false ∧ Updates old es (fallback io host d auths old) := by
  have h : (fallback io host d auths old).moved = false ∧
      (fallback io host d auths old).file = old := by
    unfold fallback
    split
    · exact ⟨rfl, rfl⟩
    · split <;> exact ⟨rfl, rfl⟩
  exact ⟨h.1, .of_not h.1 h.2⟩

theorem setUserAuthorization_spec (hmem : ∀ n, io.malloc n = true) (host : Host) (d : Display)
    (old : Option (List Xauth)) :
    Updates old (newEntries host d ++ kept (newEntries host d) (old.getD []))
        (setUserAuthorization io host d old) ∧
      ((setUserAuthorization io host d old).moved = true ↔
        d.authorizations.isSome = true ∧ d.forceUserAuthDir = false ∧
          Succeeds io (newEntries host d ++ kept (newEntries host d) (old.getD []))) := by
  have hauths : d.auths = d.authorizations.getD [] := rfl
  have hnot {p : Prop} {r : Result} {es : List Xauth} (hp : ¬ p)
      (hr : r.moved = false ∧ Updates old es r) : Updates old es r ∧ (r.moved = true ↔ p) :=
    ⟨hr.2, iff_of_false (by rw [hr.1]; exact Bool.false_ne_true) hp⟩
  unfold setUserAuthorization
  cases ha : d.authorizations with
  | none => exact hnot (fun h => by cases h.1) ⟨rfl, .of_not rfl rfl⟩
  | some auths =>
    rw [ha, Option.getD_some] at hauths
    dsimp only
    split
    · rename_i hforce
      exact hnot (fun h => by rw [hforce] at h; cases h.2.1) (fallback_updates ..)
    · rename_i hforce
      cases hs : startUserAuth io with
      | none =>
        refine hnot ?_ (fallback_updates ..)
        rintro ⟨-, -, _, _, he, -⟩
        rw [hs] at he
        cases he
      | some nf =>
        obtain ⟨name, f⟩ := nf
        have hw := writeAuths_wrote hmem host d f
        rw [hauths] at hw
        obtain ⟨hok, hentries⟩ := endUserAuth_spec (newEntries host d) old hw.toAppended
          (fun k => by rw [hw.addrs]; simp [Writer.start])
        have hsucceeds : ∀ es, Succeeds io es ↔ Complete f es ∧ io.rename = true := fun es => by
          unfold Succeeds
          rw [hs]
          constructor
          · rintro ⟨_, _, ⟨⟩, h⟩
            exact h
          · exact fun h => ⟨name, f, rfl, h⟩
        dsimp only
        rw [hsucceeds, ← hok]
        split
        · rename_i hend
          split
          · rename_i hrename
            refine ⟨⟨fun _ => congrArg some (hentries hend), fun h => by cases h⟩, ?_⟩
            exact iff_of_true rfl ⟨rfl, by simpa using hforce, hend, hrename⟩
          · rename_i hrename
            exact hnot (fun h => hrename h.2.2.2) ⟨rfl, .of_not rfl rfl⟩
        · rename_i hend
          refine hnot (fun h => hend h.2.2.1) (fallback_updates ..)

/-! ## The keys of a display -/

def Xauth.dropData (auth : Xauth) : Xauth := { auth with data := [] }

theorem selfEntries_dropData (host : Host) (auth : Xauth) :
    selfEntries host auth.dropData = (selfEntries host auth).map Xauth.dropData := by
  unfold selfEntries
  rw [List.map_flatMap]
  congr 1
  funext ifr
  cases ifr with
  | none => rfl
  | some a =>
    change (if skipped auth _ _ then _ else _) = List.map _ (if skipped auth _ _ then _ else _)
    split <;> rfl

theorem numbered_dropData (name : Bytes) (auth : Xauth) :
    numbered name auth.dropData = (numbered name auth).dropData := by
  unfold numbered
  cases displayNumber name <;> rfl

theorem localEntries_dropData (host : Host) (name : Bytes) (auth : Xauth) :
    localEntries host name auth.dropData = (localEntries host name auth).map Xauth.dropData := by
  unfold localEntries
  rw [numbered_dropData, selfEntries_dropData, List.map_append]
  rfl

theorem entriesOf_dropData (host : Host) (d : Display) (auth : Xauth) :
    entriesOf host d auth.dropData = (entriesOf host d auth).map Xauth.dropData := by
  unfold entriesOf remoteEntries
  split
  · exact localEntries_dropData host d.name auth
  · cases d.peer with
    | none => rfl
    | some a =>
      dsimp only
      rw [numbered_dropData, localEntries_dropData]
      split <;> rfl

/-- The cache of Kerberos does not count for the keys. -/
theorem keys_withoutCache (host : Host) (d : Display) (auth : Xauth) :
    (entriesOf host d (withoutCache auth)).map Xauth.key = (entriesOf host d auth).map Xauth.key := by
  unfold withoutCache
  split
  · change (entriesOf host d auth.dropData).map Xauth.key = _
    rw [entriesOf_dropData, List.map_map]
    rfl
  · rfl

theorem mem_find_eraseP {α : Type*} {p : α → Bool} {l : List α} {a : α} :
    a ∈ l ↔ a ∈ (l.find? p).toList ∨ a ∈ l.eraseP p := by
  induction l with
  | nil => simp
  | cons b l ih =>
    by_cases hb : p b = true
    · simp [List.find?_cons_of_pos hb, List.eraseP_cons_of_pos hb]
    · rw [List.find?_cons_of_neg hb, List.eraseP_cons_of_neg hb, List.mem_cons, List.mem_cons, ih]
      exact or_left_comm

theorem mem_keys_newEntries (host : Host) (d : Display) (k : Key) :
    k ∈ (newEntries host d).map Xauth.key ↔
      k ∈ (d.auths.flatMap (entriesOf host d)).map Xauth.key := by
  have hflat {l : List Xauth} {g : Xauth → List Xauth} :
      k ∈ (l.flatMap g).map Xauth.key ↔ ∃ a ∈ l, k ∈ (g a).map Xauth.key := by
    rw [List.map_flatMap]
    exact List.mem_flatMap
  unfold newEntries
  rw [List.map_append, List.mem_append, hflat, hflat, hflat]
  simp only [keys_withoutCache]
  rw [← exists_or]
  refine exists_congr fun a => ?_
  rw [mem_find_eraseP (p := isMagicCookie) (l := d.auths), or_and_right]

theorem removeUserAuthorization_spec (hmem : ∀ n, io.malloc n = true) (host : Host) (d : Display)
    (old : Option (List Xauth)) :
    Updates old (kept (newEntries host d) (old.getD [])) (removeUserAuthorization io host d old) ∧
      ((removeUserAuthorization io host d old).moved = true ↔
        d.authorizations.isSome = true ∧ Succeeds io (kept (newEntries host d) (old.getD []))) := by
  have hauths : d.auths = d.authorizations.getD [] := rfl
  unfold removeUserAuthorization
  cases ha : d.authorizations with
  | none => exact ⟨.of_not rfl rfl, by simp⟩
  | some auths =>
    rw [ha, Option.getD_some] at hauths
    dsimp only
    cases hs : startUserAuth io with
    | none =>
      refine ⟨.of_not rfl rfl, iff_of_false Bool.false_ne_true ?_⟩
      rintro ⟨-, _, _, he, -⟩
      rw [hs] at he
      cases he
    | some nf =>
      obtain ⟨name, f⟩ := nf
      have hw := Wrote.foldl (fun w auth => writeDisplayAuth_wrote hmem host d none auth w)
        auths .start
      have happ : Appended (some f) [] .start
          (auths.foldl (fun w auth => writeDisplayAuth io.malloc host d none auth w) .start) :=
        ⟨by simpa using hw.writes, by simpa using hw.ok, by simpa using hw.entries⟩
      obtain ⟨hok, hentries⟩ := endUserAuth_spec (newEntries host d) old happ
        (fun k => by rw [hw.addrs, mem_keys_newEntries, hauths]; simp [Writer.start])
      rw [List.nil_append] at hok hentries
      dsimp only
      split
      · rename_i hend
        refine ⟨⟨fun _ => congrArg some (hentries hend.1), fun h => by cases h⟩, ?_⟩
        exact iff_of_true rfl ⟨rfl, name, f, hs, hok.mp hend.1, hend.2⟩
      · rename_i hend
        refine ⟨.of_not rfl rfl, iff_of_false Bool.false_ne_true ?_⟩
        rintro ⟨-, _, _, he, hc, hrename⟩
        rw [hs] at he
        cases he
        exact hend ⟨hok.mpr hc, hrename⟩

/-! ## Principal result -/

namespace Sample

/-- Everything works. -/
def works : Io where
  malloc := fun _ => true
  home := some (ascii "/home/u")
  lock := true
  creat := some ⟨fun _ => true, true⟩
  rename := true
  mkTempFile := none

def thisHost : Host := ⟨ascii "h", none⟩

def cookie (number : Bytes) : Xauth :=
  ⟨FamilyLocal.toNat, ascii "h", number, ascii "MIT-MAGIC-COOKIE-1", [1]⟩

/-- The display `:0` with a cookie. -/
def display : Display := ⟨ascii ":0", true, none, some [cookie []], false, []⟩

end Sample

end Kdm.Xauthority
