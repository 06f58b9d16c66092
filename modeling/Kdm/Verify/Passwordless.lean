import Mathlib.Data.List.Basic

/-!
# Authentication without a password

`verify` of `client.c` asks the PAM service of kdm, or the one without a password, or the one that
the greeter's method names.  `isNoPassAllowed` decides about the second one.

* `isNoPassAllowed` — the walk over `NoPassUsers`, and over the groups, whose lists of members it uses
  up.
* `verify` — up to `doPAMAuth`: the service that is asked, and for whom.
* `Admitted` — who may do without a password.

Principal result: `passwordless_confined_iff`.  `isNoPassAllowed` is right about every name, and the service
without a password is asked for somebody else exactly when the method of the greeter names it.
-/

namespace Kdm.Verify

abbrev Text := List UInt8

/-- `'!'`. -/
def BANG : UInt8 := 33

/-- `'*'`. -/
def STAR : UInt8 := 42

/-- `'@'`. -/
def AT : UInt8 := 64

/-- `"classic"`. -/
def CLASSIC : Text := [99, 108, 97, 115, 115, 105, 99]

/-- `"-"`. -/
def DASH : Text := [45]

/-- `"np"`. -/
def NP : Text := [110, 112]

/-- `struct passwd`, as far as it is used here. -/
structure Passwd where
  pw_name : Text
  pw_passwd : Text
  pw_uid : Nat
  pw_gid : Nat

/-- `struct group`. -/
structure Group where
  gr_name : Text
  gr_gid : Nat
  gr_mem : List Text

/-- The databases; a system without `getspnam` has no shadow entry for anybody. -/
structure Database where
  getpwnam : Text → Option Passwd
  /-- the `sp_pwdp` of an entry -/
  getspnam : Text → Option Text
  /-- what `getgrent` gives, one after the other -/
  groups : List Group

/-- Where the name and the password come from. -/
inductive Source
  | PWSRC_MANUAL
  | PWSRC_AUTOLOGIN
  | PWSRC_RELOGIN
deriving DecidableEq

open Source

/-! ## `isNoPassAllowed` -/

/-- The first character is one of a locked account. -/
def lockedBy (passwd : Text) : Bool := passwd.head? = some BANG || passwd.head? = some STAR

/-- The loop over the list, for the entries that are no groups: the result, or `hg`. -/
def listed (pw : Passwd) : List Text → Bool → Bool ⊕ Bool
  | [], hg => .inr hg
  | f :: fp, hg =>
    if f.head? = some AT then listed pw fp true
    else if pw.pw_name = f then .inl true
    else if [STAR] = f ∧ pw.pw_uid ≠ 0 then .inl true
    else listed pw fp hg

/-- The loop over the members: what is left of them, if the user is not found. -/
def searchMem (name : Text) : List Text → Option (List Text)
  | [] => some []
  | mem :: gr_mem => if name = mem then none else searchMem name gr_mem

/-- The loop over the list, for a group; `gr_mem` is what is left of its members. -/
def groupListed (pw : Passwd) (gr : Group) (gr_mem : List Text) : List Text → Bool
  | [] => false
  | f :: fp =>
    if f.head? = some AT ∧ gr.gr_name = f.tail then
      if pw.pw_gid = gr.gr_gid then true
      else
        match searchMem pw.pw_name gr_mem with
        | none => true
        | some gr_mem => groupListed pw gr gr_mem fp
    else groupListed pw gr gr_mem fp

/-- The loop over the groups. -/
def groupsListed (pw : Passwd) (noPassUsers : List Text) : List Group → Bool
  | [] => false
  | gr :: grs => groupListed pw gr gr.gr_mem noPassUsers || groupsListed pw noPassUsers grs

def isNoPassAllowed (db : Database) (noPassUsers : List Text) (cursource : Source) (un : Text) :
    Bool :=
  if un = [] then false
  else if cursource ≠ PWSRC_MANUAL then true
  else
    match db.getpwnam un with
    | none => false
    | some pw =>
      if lockedBy pw.pw_passwd then false
      else if (db.getspnam un).any lockedBy then false
      else
        match listed pw noPassUsers false with
        | .inl r => r
        | .inr hg => hg && groupsListed pw noPassUsers db.groups

/-! ## `verify` -/

/-- The conversation: `conv_interact` with the answers of the greeter (`none` for a null pointer), or
`conv_auto`. -/
inductive Conv
  | interact (user pass : Option Text)
  | auto

/-- The static variables that `verify` goes by. -/
structure Cred where
  curuser : Option Text
  curpass : Option Text
  curtype : Text
  cursource : Source

/-- The user that the conversation names. -/
def Conv.user (gconv : Conv) (c : Cred) : Option Text :=
  match gconv with
  | .interact user _ => user
  | .auto => c.curuser

/-- `curpass` behind `gconv(GCONV_PASS_ND, 0)`: a null pointer leaves what was there. -/
def Conv.pass (gconv : Conv) (c : Cred) : Option Text :=
  match gconv with
  | .interact _ pass => pass.or c.curpass
  | .auto => c.curpass

/-- `"%.31s-%.31s"`. -/
def compose (PAMService curtype : Text) : Text := PAMService.take 31 ++ (DASH ++ curtype.take 31)

/-- `"%.31s-np"`. -/
def npService (PAMService : Text) : Text := PAMService.take 31 ++ (DASH ++ NP)

/-- The service that `verify` authenticates against, unless it returns before. -/
def verify (PAMService : Text) (db : Database) (noPassUsers : List Text) (c : Cred)
    (gconv : Conv) : Option Text :=
  if c.curtype = CLASSIC then
    match gconv.user c with
    | none => none
    | some curuser =>
      if isNoPassAllowed db noPassUsers c.cursource curuser then
        let curpass := gconv.pass c
        if curpass = none ∨ curpass = some [] then some (npService PAMService)
        else some PAMService
      else some PAMService
  else some (compose PAMService c.curtype)

/-- `G_Verify` and `G_VerifyRootOK`, for the method that the greeter sends. -/
def gVerify (curtype : Text) : Cred := ⟨none, none, curtype, PWSRC_MANUAL⟩

/-- `doAutoLogon`, for `G_AutoLogin`. -/
def doAutoLogon (autoUser autoPass : Text) : Cred :=
  ⟨some autoUser, some autoPass, CLASSIC, PWSRC_AUTOLOGIN⟩

/-! ## The property -/

/-- An entry of the list that covers a user. -/
inductive Covers (db : Database) (pw : Passwd) : Text → Prop
  | name {f : Text} (hf : f.head? ≠ some AT) (h : f = pw.pw_name) : Covers db pw f
  | all (h : pw.pw_uid ≠ 0) : Covers db pw [STAR]
  | group {gr : Group} (hgr : gr ∈ db.groups)
      (h : pw.pw_gid = gr.gr_gid ∨ pw.pw_name ∈ gr.gr_mem) : Covers db pw (AT :: gr.gr_name)

/-- **Who may do without a password**: a user that exists, is not locked, and is covered by an entry of
the list. -/
def Admitted (db : Database) (noPassUsers : List Text) (un : Text) : Prop :=
  ∃ pw, db.getpwnam un = some pw ∧ lockedBy pw.pw_passwd = false ∧
    (∀ sp, db.getspnam un = some sp → lockedBy sp = false) ∧ ∃ f ∈ noPassUsers, Covers db pw f

/-- The service without a password: `PAMService` followed by `-np`, also where it is shortened. -/
def Passless (PAMService psrv : Text) : Prop :=
  psrv = npService PAMService ∨ psrv = PAMService ++ (DASH ++ NP)

/-- **The property**: the service without a password is asked only if nobody was asked for the name, or
for a user that is admitted. -/
def Confined (PAMService : Text) (db : Database) (noPassUsers : List Text) (c : Cred)
    (gconv : Conv) : Prop :=
  ∀ psrv, verify PAMService db noPassUsers c gconv = some psrv → Passless PAMService psrv →
    c.cursource ≠ PWSRC_MANUAL ∨ ∃ un, gconv.user c = some un ∧ Admitted db noPassUsers un

variable {db : Database} {pw : Passwd} {noPassUsers l : List Text} {PAMService un : Text}
  {gr : Group} {c : Cred} {gconv : Conv}

/-! ## The walk -/

/-- An entry that is no group covers the user. -/
def NamedBy (pw : Passwd) (f : Text) : Prop :=
  f.head? ≠ some AT ∧ (pw.pw_name = f ∨ [STAR] = f ∧ pw.pw_uid ≠ 0)

theorem listed_of_named {f : Text} (hf : f ∈ l) (hn : NamedBy pw f) (hg : Bool) :
    listed pw l hg = .inl true := by
  induction l generalizing hg with
  | nil => cases hf
  | cons f' l ih =>
    unfold listed
    by_cases hat : f'.head? = some AT
    · rw [if_pos hat]
      obtain rfl | hf := List.mem_cons.mp hf
      · exact absurd hat hn.1
      · exact ih hf true
    rw [if_neg hat]
    by_cases hname : pw.pw_name = f'
    · rw [if_pos hname]
    by_cases hall : [STAR] = f' ∧ pw.pw_uid ≠ 0
    · rw [if_neg hname, if_pos hall]
    · rw [if_neg hname, if_neg hall]
      obtain rfl | hf := List.mem_cons.mp hf
      · exact absurd hn.2 (not_or.mpr ⟨hname, hall⟩)
      · exact ih hf hg

theorem listed_of_not (h : ∀ f ∈ l, ¬ NamedBy pw f) (hg : Bool) :
    listed pw l hg = .inr (hg || l.any fun f => f.head? = some AT) := by
  induction l generalizing hg with
  | nil => simp [listed]
  | cons f l ih =>
    have hl : ∀ f ∈ l, ¬ NamedBy pw f := fun f' hf' => h f' (List.mem_cons_of_mem f hf')
    unfold listed
    by_cases hat : f.head? = some AT
    · rw [if_pos hat, ih hl]
      simp [hat]
    · have hno : ¬ (pw.pw_name = f ∨ [STAR] = f ∧ pw.pw_uid ≠ 0) := fun hn =>
        h f List.mem_cons_self ⟨hat, hn⟩
      rw [not_or] at hno
      rw [if_neg hat, if_neg hno.1, if_neg hno.2, ih hl]
      simp [hat]

theorem searchMem_eq (name : Text) (gr_mem : List Text) :
    searchMem name gr_mem = if name ∈ gr_mem then none else some [] := by
  induction gr_mem with
  | nil => rfl
  | cons mem gr_mem ih =>
    unfold searchMem
    by_cases h : name = mem
    · rw [if_pos h, if_pos (List.mem_cons.mpr (Or.inl h))]
    · rw [if_neg h, ih]
      simp [h]

/-- The list of members is used up by the first entry that names the group: a second one finds
nothing more, and nothing is lost, since the user was not there. -/
theorem groupListed_iff (gr_mem : List Text) : groupListed pw gr gr_mem l = true ↔
    (AT :: gr.gr_name) ∈ l ∧ (pw.pw_gid = gr.gr_gid ∨ pw.pw_name ∈ gr_mem) := by
  induction l generalizing gr_mem with
  | nil => simp [groupListed]
  | cons f l ih =>
    have hentry : (f.head? = some AT ∧ gr.gr_name = f.tail) ↔ AT :: gr.gr_name = f := by
      cases f with
      | nil => simp
      | cons b f => simp [eq_comm]
    unfold groupListed
    by_cases hf : f.head? = some AT ∧ gr.gr_name = f.tail
    · rw [if_pos hf, List.mem_cons, or_iff_left_of_imp (a := AT :: gr.gr_name = f)
        (fun _ => hentry.mp hf)]
      rw [and_iff_right (hentry.mp hf)]
      by_cases hgid : pw.pw_gid = gr.gr_gid
      · rw [if_pos hgid]
        exact iff_of_true rfl (Or.inl hgid)
      rw [if_neg hgid, or_iff_right hgid, searchMem_eq]
      by_cases hmem : pw.pw_name ∈ gr_mem
      · rw [if_pos hmem]
        exact iff_of_true rfl hmem
      · rw [if_neg hmem]
        refine iff_of_false ?_ hmem
        dsimp only
        rw [ih, or_iff_right hgid]
        exact fun h => List.not_mem_nil h.2
    · rw [if_neg hf, ih, List.mem_cons, or_iff_right (mt hentry.mpr hf)]

theorem groupsListed_iff (grs : List Group) : groupsListed pw noPassUsers grs = true ↔
    ∃ gr ∈ grs, (AT :: gr.gr_name) ∈ noPassUsers ∧
      (pw.pw_gid = gr.gr_gid ∨ pw.pw_name ∈ gr.gr_mem) := by
  induction grs with
  | nil => simp [groupsListed]
  | cons gr grs ih => simp [groupsListed, groupListed_iff, ih]

theorem covers_of_named {f : Text} (h : NamedBy pw f) : Covers db pw f := by
  obtain ⟨hat, hname | ⟨rfl, huid⟩⟩ := h
  · exact .name hat hname.symm
  · exact .all huid

theorem named_or_group {f : Text} (h : Covers db pw f) : NamedBy pw f ∨
    ∃ gr ∈ db.groups, AT :: gr.gr_name = f ∧ (pw.pw_gid = gr.gr_gid ∨ pw.pw_name ∈ gr.gr_mem) := by
  cases h with
  | name hat hname => exact Or.inl ⟨hat, Or.inl hname.symm⟩
  | all huid => exact Or.inl ⟨by decide, Or.inr ⟨rfl, huid⟩⟩
  | @group gr hgr hin => exact Or.inr ⟨gr, hgr, rfl, hin⟩

/-- Both loops together. -/
theorem walk_iff : (match listed pw noPassUsers false with
      | .inl r => r
      | .inr hg => hg && groupsListed pw noPassUsers db.groups) = true ↔
    ∃ f ∈ noPassUsers, Covers db pw f := by
  by_cases hn : ∃ f ∈ noPassUsers, NamedBy pw f
  · obtain ⟨f, hf, hn⟩ := hn
    rw [listed_of_named hf hn]
    exact iff_of_true rfl ⟨f, hf, covers_of_named hn⟩
  · have hno : ∀ f ∈ noPassUsers, ¬ NamedBy pw f := fun f hf h => hn ⟨f, hf, h⟩
    rw [listed_of_not hno]
    dsimp only
    rw [Bool.false_or, Bool.and_eq_true, groupsListed_iff]
    constructor
    · rintro ⟨-, gr, hgr, hf, hin⟩
      exact ⟨_, hf, .group hgr hin⟩
    · rintro ⟨f, hf, hc⟩
      obtain ⟨gr, hgr, rfl, hin⟩ := (named_or_group hc).resolve_left (hno f hf)
      exact ⟨List.any_eq_true.mpr ⟨_, hf, by simp⟩, gr, hgr, hf, hin⟩

/-- `isNoPassAllowed` is right about every name. -/
theorem isNoPassAllowed_iff (db : Database) (noPassUsers : List Text) (cursource : Source)
    (hun : un ≠ []) : isNoPassAllowed db noPassUsers cursource un = true ↔
      cursource ≠ PWSRC_MANUAL ∨ Admitted db noPassUsers un := by
  unfold isNoPassAllowed
  rw [if_neg hun]
  by_cases hsrc : cursource ≠ PWSRC_MANUAL
  · rw [if_pos hsrc]
    exact iff_of_true rfl (Or.inl hsrc)
  rw [if_neg hsrc, or_iff_right hsrc]
  unfold Admitted
  cases hpw : db.getpwnam un with
  | none => simp
  | some pw =>
    simp only [Option.some.injEq, exists_eq_left']
    by_cases hlock : lockedBy pw.pw_passwd = true
    · simp [hlock]
    by_cases hshadow : (db.getspnam un).any lockedBy = true
    · rw [if_neg hlock, if_pos hshadow]
      cases hsp : db.getspnam un with
      | none => simp [hsp] at hshadow
      | some sp =>
        rw [hsp] at hshadow
        simp [show lockedBy sp = true from hshadow]
    · rw [if_neg hlock, if_neg hshadow, walk_iff, and_iff_right (Bool.eq_false_iff.mpr hlock)]
      refine (and_iff_right fun sp hsp => ?_).symm
      exact Bool.eq_false_iff.mpr fun hl => hshadow (by rw [hsp]; exact hl)

/-! ## The service -/

theorem npService_passless (PAMService : Text) : Passless PAMService (npService PAMService) :=
  Or.inl rfl

/-- For a service of a usual length, just one method is dangerous. -/
theorem passless_compose_iff (hlen : PAMService.length ≤ 31) (curtype : Text) :
    Passless PAMService (compose PAMService curtype) ↔ curtype = NP := by
  have htake : curtype.take 31 = NP ↔ curtype = NP := by
    constructor
    · intro h
      have hl := congrArg List.length h
      rw [List.length_take] at hl
      have : curtype.length ≤ 31 := by
        have : NP.length = 2 := rfl
        omega
      rwa [List.take_of_length_le this] at h
    · rintro rfl
      rfl
  unfold Passless compose npService
  rw [List.take_of_length_le hlen, List.append_cancel_left_eq, List.append_cancel_left_eq, or_self,
    htake]

/-- The other services that are asked are not the one without a password: the main one, unless its
name ends in `-np` behind 31 characters, and the one that the method names. -/
def Distinct (PAMService : Text) (c : Cred) (gconv : Conv) : Prop :=
  if c.curtype = CLASSIC then gconv.user c = none ∨ ¬ Passless PAMService PAMService
  else ¬ Passless PAMService (compose PAMService c.curtype)

/-- Who is not admitted gets the other services. -/
theorem verify_of_not (hsrc : c.cursource = PWSRC_MANUAL)
    (hun : ∀ un, gconv.user c = some un → ¬ Admitted db noPassUsers un) :
    verify PAMService db noPassUsers c gconv =
      if c.curtype = CLASSIC then (gconv.user c).map fun _ => PAMService
      else some (compose PAMService c.curtype) := by
  unfold verify
  split
  · cases huser : gconv.user c with
    | none => rfl
    | some un =>
      have hno : ¬ isNoPassAllowed db noPassUsers c.cursource un = true := by
        by_cases hempty : un = []
        · simp [isNoPassAllowed, hempty]
        · rw [isNoPassAllowed_iff db noPassUsers c.cursource hempty, hsrc]
          simpa using hun un huser
      dsimp only
      rw [if_neg hno]
      rfl
  · rfl

theorem confined_iff_distinct (PAMService : Text) (db : Database) (noPassUsers : List Text)
    (c : Cred) (gconv : Conv) : Confined PAMService db noPassUsers c gconv ↔
      c.cursource ≠ PWSRC_MANUAL ∨ (∃ un, gconv.user c = some un ∧ Admitted db noPassUsers un) ∨
        Distinct PAMService c gconv := by
  by_cases hsrc : c.cursource = PWSRC_MANUAL
  · by_cases hun : ∃ un, gconv.user c = some un ∧ Admitted db noPassUsers un
    · exact iff_of_true (fun _ _ _ => Or.inr hun) (Or.inr (Or.inl hun))
    rw [or_iff_right (not_not.mpr hsrc), or_iff_right hun]
    have hv : verify PAMService db noPassUsers c gconv = _ := verify_of_not hsrc
      fun un huser hadm => hun ⟨un, huser, hadm⟩
    unfold Confined Distinct
    rw [hv]
    simp only [hsrc, ne_eq, not_true, false_or, hun, imp_false]
    split
    · cases gconv.user c <;> simp
    · simp
  · exact iff_of_true (fun _ _ _ => Or.inl hsrc) (Or.inl hsrc)

/-- **Authentication without a password is confined** exactly where the other services are distinct from
the one without a password, or do not matter; and `isNoPassAllowed` is right about every name that is
not empty. -/
theorem passwordless_confined_iff (PAMService : Text) (db : Database) (noPassUsers : List Text) (c : Cred)
    (gconv : Conv) :
    (Confined PAMService db noPassUsers c gconv ↔
      c.cursource ≠ PWSRC_MANUAL ∨ (∃ un, gconv.user c = some un ∧ Admitted db noPassUsers un) ∨
        Distinct PAMService c gconv) ∧
    ∀ (cursource : Source) (b : UInt8) (un : Text),
      isNoPassAllowed db noPassUsers cursource (b :: un) = true ↔
        cursource ≠ PWSRC_MANUAL ∨ Admitted db noPassUsers (b :: un) :=
  ⟨confined_iff_distinct PAMService db noPassUsers c gconv, fun cursource b un =>
    isNoPassAllowed_iff db noPassUsers cursource (List.cons_ne_nil b un)⟩

/-- `G_AutoLogin` is confined. -/
theorem confined_doAutoLogon (PAMService : Text) (db : Database) (noPassUsers : List Text)
    (autoUser autoPass : Text) :
    Confined PAMService db noPassUsers (doAutoLogon autoUser autoPass) .auto :=
  fun _ _ _ => Or.inl nofun

/-- `G_Verify` is confined for an unlisted user exactly if the method is not `np`. -/
theorem confined_gVerify (hlen : PAMService.length ≤ 31) (user pass : Option Text) (curtype : Text)
    (hun : ∀ un, user = some un → ¬ Admitted db noPassUsers un) :
    Confined PAMService db noPassUsers (gVerify curtype) (.interact user pass) ↔ curtype ≠ NP := by
  have huser : ¬ ∃ un, Conv.user (.interact user pass) (gVerify curtype) = some un ∧
      Admitted db noPassUsers un := fun ⟨un, he, hadm⟩ => hun un he hadm
  have hsrc : ¬ (gVerify curtype).cursource ≠ PWSRC_MANUAL := not_not.mpr rfl
  rw [confined_iff_distinct, or_iff_right hsrc, or_iff_right huser]
  unfold Distinct
  split
  · rename_i hc
    have hnp : curtype ≠ NP := by
      rw [show curtype = CLASSIC from hc]
      decide
    refine iff_of_true (Or.inr ?_) hnp
    rintro (h | h)
    · have := congrArg List.length h
      rw [npService, List.take_of_length_le hlen] at this
      simp [DASH, NP] at this
    · have := congrArg List.length h
      simp [DASH, NP] at this
  · exact not_congr (passless_compose_iff hlen curtype)

/-- A greeter that sends `np` gets the service without a password for anybody. -/
theorem passwordless_not_confined : ¬ ∀ (PAMService : Text) (db : Database) (noPassUsers : List Text) (c : Cred)
    (gconv : Conv), Confined PAMService db noPassUsers c gconv := by
  intro h
  have hnobody (un : Text) : ¬ Admitted ⟨fun _ => none, fun _ => none, []⟩ [] un := nofun
  have := h [107, 100, 109] ⟨fun _ => none, fun _ => none, []⟩ [] (gVerify NP)
    (.interact (some [114, 111, 111, 116]) none)
  rw [confined_gVerify (by decide) _ _ _ fun un _ => hnobody un] at this
  exact this rfl

end Kdm.Verify
