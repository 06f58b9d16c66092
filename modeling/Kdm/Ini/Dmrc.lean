import Kdm.Ini.Entry

/-!
# The `.dmrc` of a user

`G_ReadDmrc` (`session.c`) keeps the data of the last user and reads a file only for another one:
the copy in the configured directory, or, by a child without privileges, the file in the home
directory (`readDmrc` in `client.c`).

A history has the newest request first, so the state that a request finds is the one after what
follows it in the list.

Principal result: `truthful_steady_iff`.
-/

namespace Kdm.Ini.Dmrc

open Ipc (Bytes)

/-! ## Loading a file -/

/-- `iniLoad`.  The file is `none` if it cannot be read; `front` is the byte in front of the block,
which is looked at for an empty file. -/
def iniLoad (front : UInt8) (file : Option Bytes) : Option Bytes :=
  file.bind fun data =>
    if data.length ≥ 0x10000 then none
    else some ((if data.getLast?.getD front ≠ 10 then data ++ [10] else data) ++ [0])

/-- The characters before the zero. -/
def strOf (block : Bytes) : Bytes := block.takeWhile (· ≠ 0)

inductive Status where
  | GE_Ok
  | GE_Error
  | GE_NoUser
  | GE_NoFile
  | GE_Denied
  deriving DecidableEq, Repr

structure Passwd where
  pw_name : Bytes
  pw_dir : Bytes

/-- What is on the disk, and what the system does with a request. -/
structure Disk where
  dmrcDir : Bytes
  getpwnam : Bytes → Option Passwd
  /-- a file as it is read by the daemon -/
  files : Bytes → Option Bytes
  /-- a file as it is read by a user -/
  userFiles : Passwd → Bytes → Option Bytes
  /-- `strApp` runs out of memory -/
  nomem : Bool
  /-- there is no answer from the child: `pipe` or `fork` fails, or it cannot become the user -/
  lost : Passwd → Bool
  front : UInt8

/-- `.dmrc` -/
def suffix : Bytes := [46, 100, 109, 114, 99]

def Disk.copyName (disk : Disk) (p : Passwd) : Bytes := disk.dmrcDir ++ [47] ++ p.pw_name ++ suffix

def homeName (p : Passwd) : Bytes := p.pw_dir ++ [47] ++ suffix

/-- `p = getpwnam(dmrcuser)` for a user that is named -/
def Disk.user (disk : Disk) (name : Bytes) : Option Passwd :=
  if name = [] then none else disk.getpwnam name

/-- What the child sends of the file: the characters before the first zero. -/
def Disk.sent (disk : Disk) (p : Passwd) : Option Bytes :=
  (iniLoad disk.front (disk.userFiles p (homeName p))).map fun data => strOf data ++ [0]

/-- `readDmrc`: the status, and `curdmrc`, which was null. -/
def readDmrc (disk : Disk) (name : Bytes) : Status × Option Bytes :=
  match disk.user name with
  | none => (.GE_NoUser, none)
  | some p =>
    if disk.dmrcDir ≠ [] then
      if disk.nomem then (.GE_Error, none)
      else
        match iniLoad disk.front (disk.files (disk.copyName p)) with
        | none => (.GE_Ok, none)
        | some data => (.GE_NoFile, some data)
    else if disk.nomem || disk.lost p then (.GE_Error, none)
    else
      match disk.sent p with
      | none => (.GE_Denied, none)
      | some data => (.GE_Ok, some data)

/-! ## Requests -/

structure State where
  dmrcuser : Option Bytes
  curdmrc : Option Bytes

structure Request where
  name : Bytes
  disk : Disk

/-- `G_ReadDmrc`: the answer, and the state after it. -/
def State.readDmrc (s : State) (r : Request) : Status × State :=
  if s.dmrcuser ≠ some r.name then
    let res := Dmrc.readDmrc r.disk r.name
    (res.1, ⟨some r.name, res.2⟩)
  else (.GE_Ok, s)

/-- The state after a history. -/
def after : List Request → State
  | [] => ⟨none, none⟩
  | r :: h => ((after h).readDmrc r).2

/-- The answer to a request after a history. -/
def status (r : Request) (h : List Request) : Status := ((after h).readDmrc r).1

/-! ## The law -/

/-- The data of a user: the copy if there is a directory for them, else the file at home. -/
def Disk.data (disk : Disk) (name : Bytes) : Option Bytes :=
  (disk.user name).bind fun p =>
    if disk.dmrcDir ≠ [] then iniLoad disk.front (disk.files (disk.copyName p)) else disk.sent p

/-- `curdmrc` has the data that the file of the user had at this request or at an earlier one for
the same user. -/
def Holds (r : Request) (h : List Request) : Prop :=
  ∃ q ∈ r :: h, q.name = r.name ∧ ∃ data, q.disk.data r.name = some data ∧
    (after (r :: h)).curdmrc = some data

/-- Success is answered exactly if the data is there. -/
def Truthful (h : List Request) : Prop :=
  ∀ r h', r :: h' <:+ h → (status r h' = .GE_Ok ↔ Holds r h')

/-- A request that is repeated, with whatever between them but with nothing changed, has the same
answer. -/
def Steady (h : List Request) : Prop :=
  ∀ r' b r h', r' :: (b ++ r :: h') <:+ h → r'.name = r.name → (∀ q ∈ r' :: b, q.disk = r.disk) →
    status r' (b ++ r :: h') = status r h'

/-! ## When it holds -/

/-- A request for another user than the one before it, or the first one. -/
def Fresh (r : Request) (h : List Request) : Prop := h.head?.map (·.name) ≠ some r.name

instance instDecidableFresh (r : Request) (h : List Request) : Decidable (Fresh r h) :=
  inferInstanceAs (Decidable (_ ≠ _))

/-- The request of the history that a file was read for last. -/
def source : List Request → Option Request
  | [] => none
  | r :: h => if Fresh r h then some r else source h

/-- There is no directory for the copies, or no such user, or no memory for the name of the file. -/
def Request.Plain (r : Request) : Prop :=
  r.disk.dmrcDir = [] ∨ r.disk.user r.name = none ∨ r.disk.nomem = true

/-- There is such a user, and the child reads the file. -/
def Request.Readable (r : Request) : Prop :=
  r.disk.dmrcDir = [] ∧ r.disk.nomem = false ∧ ∃ p, r.disk.user r.name = some p ∧
    r.disk.lost p = false ∧ ∃ file, r.disk.userFiles p (homeName p) = some file ∧
      file.length < 0x10000

/-- No copies are read; a user that is asked for again was read; and with nothing changed since
then a user that is asked for again after another one can still be read. -/
structure Sound (h : List Request) : Prop where
  plain : ∀ r h', r :: h' <:+ h → Fresh r h' → r.Plain
  read : ∀ r h', r :: h' <:+ h → ¬Fresh r h' → ∀ q ∈ source h', q.Readable
  still : ∀ r' b r h', r' :: (b ++ r :: h') <:+ h → r'.name = r.name →
    (∀ q ∈ r' :: b, q.disk = r.disk) → ¬Fresh r h' → Fresh r' (b ++ r :: h') → r.Readable

section Law

variable {h : List Request} {r : Request} {disk : Disk} {name data : Bytes}

/-- The name that is kept is the one of the last request. -/
theorem dmrcuser_after (h : List Request) : (after h).dmrcuser = h.head?.map (·.name) := by
  cases h with
  | nil => rfl
  | cons r h =>
    show ((after h).readDmrc r).2.dmrcuser = some r.name
    unfold State.readDmrc
    split
    · rfl
    · rename_i hs
      exact not_not.mp hs

theorem readDmrc_fresh (hf : Fresh r h) :
    (after h).readDmrc r =
      ((readDmrc r.disk r.name).1, ⟨some r.name, (readDmrc r.disk r.name).2⟩) := by
  unfold State.readDmrc
  rw [dmrcuser_after]
  exact if_pos hf

theorem readDmrc_again (hf : ¬Fresh r h) : (after h).readDmrc r = (.GE_Ok, after h) := by
  unfold State.readDmrc
  rw [dmrcuser_after]
  exact if_neg hf

theorem mem_source {q : Request} (hq : source h = some q) :
    q ∈ h ∧ h.head?.map (·.name) = some q.name := by
  induction h with
  | nil => cases hq
  | cons r h ih =>
    rw [source] at hq
    split at hq
    · cases hq
      exact ⟨List.mem_cons_self, rfl⟩
    · rename_i hf
      obtain ⟨hmem, hname⟩ := ih hq
      refine ⟨List.mem_cons_of_mem r hmem, ?_⟩
      rw [← hname]
      exact (not_not.mp hf).symm

theorem source_of_again (hf : ¬Fresh r h) : ∃ q, source h = some q := by
  induction h generalizing r with
  | nil => exact (hf (by simp [Fresh])).elim
  | cons r' h ih =>
    rw [source]
    split
    · exact ⟨r', rfl⟩
    · rename_i hf'
      exact ih hf'

/-- **What is kept is what was read last.** -/
theorem curdmrc_after (h : List Request) :
    (after h).curdmrc = (source h).bind fun q => (readDmrc q.disk q.name).2 := by
  induction h with
  | nil => rfl
  | cons r h ih =>
    rw [source, after]
    split
    · rename_i hf
      rw [readDmrc_fresh hf]
      rfl
    · rename_i hf
      rw [readDmrc_again hf, ih]

/-! ### One read -/

theorem iniLoad_isSome_iff (front : UInt8) (file : Option Bytes) :
    (∃ data, iniLoad front file = some data) ↔ ∃ f, file = some f ∧ f.length < 0x10000 := by
  unfold iniLoad
  cases file with
  | none => simp
  | some f =>
    rw [Option.bind_some]
    split
    · rename_i hlen
      refine iff_of_false (by simp) ?_
      rintro ⟨f', hf, hlt⟩
      cases hf
      omega
    · rename_i hlen
      exact iff_of_true ⟨_, rfl⟩ ⟨f, rfl, by omega⟩

/-- What is kept are the data of the user. -/
theorem readDmrc_data (h : (readDmrc disk name).2 = some data) : disk.data name = some data := by
  unfold readDmrc at h
  unfold Disk.data
  cases hu : disk.user name with
  | none =>
    rw [hu] at h
    cases h
  | some p =>
    rw [hu] at h
    dsimp only at h
    rw [Option.bind_some]
    split at h
    · rename_i hdir
      rw [if_pos hdir]
      split at h
      · cases h
      · cases hl : iniLoad disk.front (disk.files (disk.copyName p)) with
        | none =>
          rw [hl] at h
          cases h
        | some d =>
          rw [hl] at h
          exact h
    · rename_i hdir
      rw [if_neg hdir]
      split at h
      · cases h
      · cases hl : disk.sent p with
        | none =>
          rw [hl] at h
          cases h
        | some d =>
          rw [hl] at h
          exact h

/-- **A read is truthful exactly if it is not one of a copy.** -/
theorem readDmrc_truthful_iff (r : Request) :
    ((readDmrc r.disk r.name).1 = .GE_Ok ↔ ∃ data, (readDmrc r.disk r.name).2 = some data) ↔
      r.Plain := by
  unfold readDmrc Request.Plain
  cases hu : r.disk.user r.name with
  | none => simp
  | some p =>
    dsimp only
    split
    · rename_i hdir
      cases hm : r.disk.nomem with
      | true => simp
      | false =>
        -- a copy that was read is reported as missing, and one that was not as read
        cases iniLoad r.disk.front (r.disk.files (r.disk.copyName p)) with
        | none => simp [hdir]
        | some data => simp [hdir]
    · rename_i hdir
      have hnil : r.disk.dmrcDir = [] := not_not.mp hdir
      cases r.disk.nomem || r.disk.lost p with
      | true => simp [hnil]
      | false => cases r.disk.sent p <;> simp [hnil]

theorem readable_iff (hp : r.Plain) :
    (∃ data, (readDmrc r.disk r.name).2 = some data) ↔ r.Readable := by
  constructor
  · rintro ⟨data, h⟩
    unfold readDmrc at h
    cases hu : r.disk.user r.name with
    | none =>
      rw [hu] at h
      cases h
    | some p =>
      rw [hu] at h
      dsimp only at h
      split at h
      · rename_i hdir
        split at h
        · cases h
        · rename_i hm
          rcases hp with hp | hp | hp
          · exact (hdir hp).elim
          · rw [hu] at hp
            cases hp
          · exact (hm hp).elim
      · rename_i hdir
        split at h
        · cases h
        · rename_i hm
          rw [Bool.or_eq_true, not_or, Bool.not_eq_true, Bool.not_eq_true] at hm
          cases hs : r.disk.sent p with
          | none =>
            rw [hs] at h
            cases h
          | some d =>
            obtain ⟨d', hd', -⟩ := Option.map_eq_some_iff.mp hs
            exact ⟨not_not.mp hdir, hm.1, p, hu, hm.2, (iniLoad_isSome_iff _ _).mp ⟨d', hd'⟩⟩
  · rintro ⟨hdir, hm, p, hu, hlost, hfile⟩
    obtain ⟨d, hd⟩ := (iniLoad_isSome_iff r.disk.front _).mpr hfile
    unfold readDmrc
    rw [hu]
    dsimp only
    rw [if_neg (not_not.mpr hdir), hm, hlost]
    unfold Disk.sent
    rw [hd]
    exact ⟨_, rfl⟩

/-! ### One request -/

theorem holds_fresh_iff (hf : Fresh r h) :
    Holds r h ↔ ∃ data, (readDmrc r.disk r.name).2 = some data := by
  have hcur : (after (r :: h)).curdmrc = (readDmrc r.disk r.name).2 := by
    rw [after, readDmrc_fresh hf]
  unfold Holds
  rw [hcur]
  constructor
  · rintro ⟨q, -, -, data, -, hdata⟩
    exact ⟨data, hdata⟩
  · rintro ⟨data, hdata⟩
    exact ⟨r, List.mem_cons_self, rfl, data, readDmrc_data hdata, hdata⟩

theorem fresh_truthful_iff (hf : Fresh r h) : (status r h = .GE_Ok ↔ Holds r h) ↔ r.Plain := by
  unfold status
  rw [holds_fresh_iff hf, readDmrc_fresh hf]
  exact readDmrc_truthful_iff r

theorem holds_again_iff (hf : ¬Fresh r h) :
    Holds r h ↔ ∀ q ∈ source h, ∃ data, (readDmrc q.disk q.name).2 = some data := by
  obtain ⟨q, hq⟩ := source_of_again hf
  obtain ⟨hmem, hname⟩ := mem_source hq
  have hqr : q.name = r.name := Option.some.inj (hname.symm.trans (not_not.mp hf))
  have hcur : (after (r :: h)).curdmrc = (readDmrc q.disk q.name).2 := by
    rw [after, readDmrc_again hf, curdmrc_after, hq]
    rfl
  unfold Holds
  rw [hcur]
  constructor
  · rintro ⟨-, -, -, data, -, hdata⟩ q' hq'
    cases hq.symm.trans hq'
    exact ⟨data, hdata⟩
  · intro hall
    obtain ⟨data, hdata⟩ := hall q hq
    refine ⟨q, List.mem_cons_of_mem r hmem, hqr, data, ?_, hdata⟩
    rw [← hqr]
    exact readDmrc_data hdata

theorem again_truthful_iff (hf : ¬Fresh r h) : (status r h = .GE_Ok ↔ Holds r h) ↔ Holds r h := by
  unfold status
  rw [readDmrc_again hf]
  simp

/-! ### Histories -/

theorem status_of_readable (hp : r.Plain) (hr : r.Readable) : (readDmrc r.disk r.name).1 = .GE_Ok :=
  ((readDmrc_truthful_iff r).mpr hp).mpr ((readable_iff hp).mpr hr)

theorem readable_of_status (hp : r.Plain) (hs : (readDmrc r.disk r.name).1 = .GE_Ok) :
    r.Readable :=
  (readable_iff hp).mp (((readDmrc_truthful_iff r).mpr hp).mp hs)

theorem request_eq {r r' : Request} (hname : r'.name = r.name) (hdisk : r'.disk = r.disk) :
    r' = r := by
  cases r
  cases r'
  cases hname
  cases hdisk
  rfl

theorem source_suffix {q : Request} (hq : source h = some q) :
    ∃ h', q :: h' <:+ h ∧ Fresh q h' := by
  induction h with
  | nil => cases hq
  | cons r h ih =>
    rw [source] at hq
    split at hq
    · rename_i hf
      cases hq
      exact ⟨h, List.suffix_refl _, hf⟩
    · obtain ⟨h', hsuff, hf⟩ := ih hq
      exact ⟨h', hsuff.trans (List.suffix_cons r h), hf⟩

/-- After a request that read a file, that one or a later one was read last. -/
theorem source_append (hf : Fresh r h) (b : List Request) :
    ∃ q ∈ b ++ [r], source (b ++ r :: h) = some q := by
  induction b with
  | nil =>
    exact ⟨r, by simp, if_pos hf⟩
  | cons x b ih =>
    show ∃ q ∈ x :: b ++ [r], (if Fresh x (b ++ r :: h) then some x else source (b ++ r :: h)) = some q
    split
    · exact ⟨x, by simp, rfl⟩
    · obtain ⟨q, hq, hs⟩ := ih
      exact ⟨q, List.mem_cons_of_mem x hq, hs⟩

theorem truthful_iff (h : List Request) :
    Truthful h ↔ (∀ r h', r :: h' <:+ h → Fresh r h' → r.Plain) ∧
      ∀ r h', r :: h' <:+ h → ¬Fresh r h' → ∀ q ∈ source h', q.Readable := by
  constructor
  · intro ht
    have hplain : ∀ r h', r :: h' <:+ h → Fresh r h' → r.Plain := fun r h' hs hf =>
      (fresh_truthful_iff hf).mp (ht r h' hs)
    refine ⟨hplain, fun r h' hs hf q hq => ?_⟩
    obtain ⟨h'', hsuff, hfq⟩ := source_suffix hq
    have hpq := hplain q h'' (hsuff.trans ((List.suffix_cons r h').trans hs)) hfq
    exact (readable_iff hpq).mp
      ((holds_again_iff hf).mp ((again_truthful_iff hf).mp (ht r h' hs)) q hq)
  · rintro ⟨hplain, hread⟩ r h' hs
    by_cases hf : Fresh r h'
    · exact (fresh_truthful_iff hf).mpr (hplain r h' hs hf)
    · refine (again_truthful_iff hf).mpr ((holds_again_iff hf).mpr fun q hq => ?_)
      obtain ⟨h'', hsuff, hfq⟩ := source_suffix hq
      have hpq := hplain q h'' (hsuff.trans ((List.suffix_cons r h').trans hs)) hfq
      exact (readable_iff hpq).mpr (hread r h' hs hf q hq)

/-- **The answers are truthful and steady exactly in these histories.** -/
theorem truthful_steady_iff (h : List Request) : Truthful h ∧ Steady h ↔ Sound h := by
  have hsub {r' r : Request} {b h' : List Request} (hs : r' :: (b ++ r :: h') <:+ h) :
      r :: h' <:+ h := (List.suffix_append (r' :: b) (r :: h')).trans hs
  constructor
  · rintro ⟨ht, hsteady⟩
    obtain ⟨hplain, hread⟩ := (truthful_iff h).mp ht
    refine ⟨hplain, hread, fun r' b r h' hs hname hdisk hf hf' => ?_⟩
    -- what was answered again is answered by the read, which so has succeeded
    have hst := hsteady r' b r h' hs hname hdisk
    unfold status at hst
    rw [readDmrc_again hf, readDmrc_fresh hf'] at hst
    rw [← request_eq hname (hdisk r' List.mem_cons_self)]
    exact readable_of_status (hplain r' _ hs hf') hst
  · rintro ⟨hplain, hread, hstill⟩
    refine ⟨(truthful_iff h).mpr ⟨hplain, hread⟩, fun r' b r h' hs hname hdisk => ?_⟩
    have heq := request_eq hname (hdisk r' List.mem_cons_self)
    unfold status
    by_cases hf : Fresh r h'
    · by_cases hf' : Fresh r' (b ++ r :: h')
      · rw [readDmrc_fresh hf, readDmrc_fresh hf', heq]
      · rw [readDmrc_again hf', readDmrc_fresh hf]
        obtain ⟨q, hq, hsource⟩ := source_append hf b
        have hqname : q.name = r.name :=
          (Option.some.inj ((mem_source hsource).2.symm.trans (not_not.mp hf'))).trans hname
        have hqdisk : q.disk = r.disk := by
          rcases List.mem_append.mp hq with hq | hq
          · exact hdisk q (List.mem_cons_of_mem r' hq)
          · rw [List.mem_singleton.mp hq]
        have hqr := hread r' _ hs hf' q hsource
        rw [request_eq hqname hqdisk] at hqr
        exact (status_of_readable (hplain r h' (hsub hs) hf) hqr).symm
    · rw [readDmrc_again hf]
      by_cases hf' : Fresh r' (b ++ r :: h')
      · have hr := hstill r' b r h' hs hname hdisk hf hf'
        have hp := hplain r' _ hs hf'
        rw [← heq] at hr
        rw [readDmrc_fresh hf']
        exact status_of_readable hp hr
      · rw [readDmrc_again hf']

end Law

/-! ### A failing history -/

/-- A disk where the user `a` has a copy of its file in the directory `/d`. -/
def copied : Disk where
  dmrcDir := [47, 100]
  getpwnam := fun name => if name = [97] then some ⟨[97], [47, 97]⟩ else none
  files := fun name => if name = [47, 100, 47, 97, 46, 100, 109, 114, 99] then some [10] else none
  userFiles := fun _ _ => none
  nomem := false
  lost := fun _ => false
  front := 0

/-- The copy is read, and reported as missing. -/
theorem not_truthful_steady : ¬ ∀ h : List Request, Truthful h ∧ Steady h := by
  intro hall
  have ht := (hall [⟨[97], copied⟩]).1 ⟨[97], copied⟩ [] (List.suffix_refl _)
  have hholds : Holds ⟨[97], copied⟩ [] :=
    ⟨_, List.mem_cons_self, rfl, [10, 0], by decide, by decide⟩
  exact absurd (ht.mpr hholds) (by decide)

end Kdm.Ini.Dmrc
