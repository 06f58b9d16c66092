import Kdm.Login.Protocol

/-!
# The session process keeps to the protocol

From the replies to a single prompt up to the life of a greeter: what each function of the session
process leaves behind, when the greeter keeps to the protocol.

* `Going`, `Aborted` — how a conversation with PAM ends for the protocol: the session process still has
  the word, or the greeter has refused to reply and may give commands.
* `Called` — what a function of PAM leaves alone.
* `Identified` — the user of the session is the one that PAM has authenticated.

Principal results: `greeting_keeps`, `manageSession_keeps`.
-/

namespace Kdm.Login

open Dialogue Verify Proc

variable {ε : Type} {strict : Bool} {v w : Vars} {c : Change} {pw : Bool} {core : Core}
  {o : Option Phase}

/-! ## Replies -/

/-- A password that the protocol knows of is there. -/
def Known (pw : Bool) (v : Vars) : Prop := pw = true → v.curpass ≠ none

/-- The session process has the word. -/
def Going (c : Change) (w : Vars) (o : Option Phase) : Prop :=
  ∃ pw, o = some (.verify c pw) ∧ Known pw w ∧ w.abort = false

/-- The greeter has refused to reply. -/
def Aborted (w : Vars) (o : Option Phase) : Prop := o = some (.command .login) ∧ w.abort = true

/-- What a reply to a question of a module leaves alone. -/
structure Talked (strict : Bool) (v w : Vars) : Prop where
  pamh : w.pamh = v.pamh
  pass : v.curpass ≠ none → w.curpass ≠ none
  user : strict = true → w.curuser = v.curuser

theorem Talked.refl : Talked strict v v := ⟨rfl, id, fun _ => rfl⟩

theorem Talked.trans {u : Vars} (h : Talked strict v w) (h' : Talked strict w u) :
    Talked strict v u :=
  ⟨h'.pamh.trans h.pamh, h'.pass ∘ h.pass, fun hs => (h'.user hs).trans (h.user hs)⟩

/-- The replies to a question for a text. -/
theorem keeps_ask {Q : Option Text → Vars → Option Phase → Prop} {what : What}
    {prompt : Option Text} (hw : what ≠ .GCONV_BINARY)
    (hnull : what.ndelay = false → Q none v (some (.command .login)))
    (hreply : ∀ ret tag ph, afterTag strict prompt (flag what.echo) c pw tag = some ph →
      Q (keepReply what ret tag v).1 (keepReply what ret tag v).2 (some ph)) :
    Keeps (greetProtocol strict) .server Q (conv_interact what prompt : Session ε (Option Text)) v
      (some (.verify c pw)) := by
  unfold conv_interact
  rw [if_neg hw]
  refine Keeps.bind (keeps_gSendInt (.prompt c pw) rfl rfl ?_)
  refine Keeps.bind (keeps_gSendStr (.echo prompt c pw) rfl rfl ?_)
  refine Keeps.bind (keeps_gSendInt (.ndelay prompt (flag what.echo) c pw) rfl rfl ?_)
  refine Keeps.bind (keeps_gSendInt
    (.reply prompt (flag what.echo) (flag what.ndelay) c pw) rfl rfl ?_)
  refine Keeps.bind (keeps_gRecvStr rfl fun i s' hn => ?_)
  cases i with
  | int _ => cases hn
  | arr _ => cases hn
  | argv _ => cases hn
  | str buf =>
    refine ⟨buf, rfl, ?_⟩
    cases buf with
    | none =>
      simp only [Phase.next] at hn
      split at hn
      · rename_i hnd
        obtain rfl := Option.some.inj hn
        refine hnull ?_
        cases hb : what.ndelay with
        | false => rfl
        | true => rw [hb] at hnd; cases hnd
      · cases hn
    | some ret =>
      obtain rfl := Option.some.inj hn
      refine Keeps.bind (keeps_gRecvInt rfl fun i s' hn => ?_)
      cases i with
      | str _ => cases hn
      | arr _ => cases hn
      | argv _ => cases hn
      | int tag => exact ⟨tag, rfl, hreply ret tag s' hn⟩

/-- A reply to a module: a password is kept where the protocol says that there is one, and a name only
behind PAM's own question for it. -/
theorem keepReply_text {what : What} {p : Text} (ret : Text) {e tag : Code} {ph : Phase}
    (hw : what = .GCONV_NORMAL ∨ what = .GCONV_HIDDEN) (hk : Known pw v)
    (ht : afterTag strict (some p) e c pw tag = some ph) :
    ∃ x, (keepReply what ret tag v).1 = some x ∧
      (∃ pw', ph = .verify c pw' ∧ Known pw' (keepReply what ret tag v).2) ∧
      (keepReply what ret tag v).2.abort = v.abort ∧ (keepReply what ret tag v).2.pamh = v.pamh ∧
      (v.curpass ≠ none → (keepReply what ret tag v).2.curpass ≠ none) ∧
      (strict = true → (keepReply what ret tag v).2.curuser = v.curuser ∨
        p = USER_PROMPT ∧ (keepReply what ret tag v).2.curuser = some x) := by
  have hkeep : keepReply what ret tag v =
      if tagged tag V_IS_USER then (some ret, { v with curuser := some ret })
      else if tagged tag V_IS_PASSWORD then (some ret, { v with curpass := some ret })
      else if tagged tag V_IS_NEWPASSWORD then (some ret, { v with newpass := some ret })
      else if tagged tag V_IS_OLDPASSWORD then (v.curpass, v)
      else (some ret, v) := by
    obtain rfl | rfl := hw <;> rfl
  rw [hkeep]
  simp only [afterTag, reduceCtorEq, if_false] at ht
  by_cases hu : tagged tag V_IS_USER = true
  · rw [if_pos hu] at ht ⊢
    split at ht
    · cases ht
    · rename_i hs
      obtain rfl := Option.some.inj ht
      refine ⟨ret, rfl, ⟨pw, rfl, hk⟩, rfl, rfl, id, fun hst => Or.inr ⟨?_, rfl⟩⟩
      simpa [hst] using hs
  rw [if_neg hu] at ht ⊢
  by_cases hp : tagged tag V_IS_PASSWORD = true
  · rw [if_pos hp] at ht ⊢
    obtain rfl := Option.some.inj ht
    exact ⟨ret, rfl, ⟨true, rfl, fun _ => by simp⟩, rfl, rfl, fun _ => by simp, fun _ => Or.inl rfl⟩
  rw [if_neg hp] at ht ⊢
  by_cases hnew : tagged tag V_IS_NEWPASSWORD = true
  · rw [if_pos hnew] at ht ⊢
    obtain rfl := Option.some.inj ht
    exact ⟨ret, rfl, ⟨pw, rfl, hk⟩, rfl, rfl, id, fun _ => Or.inl rfl⟩
  rw [if_neg hnew] at ht ⊢
  by_cases hold : tagged tag V_IS_OLDPASSWORD = true
  · rw [if_pos hold] at ht ⊢
    split at ht
    · rename_i hpw
      obtain rfl := Option.some.inj ht
      obtain ⟨x, hx⟩ := Option.ne_none_iff_exists'.mp (hk hpw)
      exact ⟨x, hx, ⟨pw, rfl, hk⟩, rfl, rfl, id, fun _ => Or.inl rfl⟩
    · cases ht
  · rw [if_neg hold] at ht ⊢
    obtain rfl := Option.some.inj ht
    exact ⟨ret, rfl, ⟨pw, rfl, hk⟩, rfl, rfl, id, fun _ => Or.inl rfl⟩

/-- What a question of a module brings: the greeter refuses, or there is a reply and it may name the
user only behind PAM's own question. -/
structure Asked (strict : Bool) (c : Change) (p : Text) (v : Vars) (r : Option Text) (w : Vars)
    (o : Option Phase) : Prop where
  pamh : w.pamh = v.pamh
  pass : v.curpass ≠ none → w.curpass ≠ none
  reply : (r = none ∧ w = v ∧ o = some (.command .login)) ∨ ∃ x, r = some x ∧ Going c w o ∧
    (strict = true → w.curuser = v.curuser ∨ p = USER_PROMPT ∧ w.curuser = some x)

theorem keeps_ask_text {what : What} {p : Text} (hw : what = .GCONV_NORMAL ∨ what = .GCONV_HIDDEN)
    (hk : Known pw v) (ha : v.abort = false) :
    Keeps (greetProtocol strict) .server (Asked strict c p v)
      (conv_interact what (some p) : Session ε (Option Text)) v (some (.verify c pw)) := by
  have hb : what ≠ .GCONV_BINARY := by obtain rfl | rfl := hw <;> decide
  refine keeps_ask hb (fun _ => ⟨rfl, id, Or.inl ⟨rfl, rfl, rfl⟩⟩) fun ret tag ph ht => ?_
  obtain ⟨x, hx, ⟨pw', rfl, hk'⟩, habort, hpamh, hpass, huser⟩ := keepReply_text ret hw hk ht
  exact ⟨hpamh, hpass, Or.inr ⟨x, hx, ⟨pw', rfl, hk', habort.trans ha⟩, huser⟩⟩

theorem keeps_ask_binary {p : Text} (hk : Known pw v) (ha : v.abort = false) :
    Keeps (greetProtocol strict) .server (Asked strict c p v)
      (conv_interact .GCONV_BINARY (some p) : Session ε (Option Text)) v (some (.verify c pw)) := by
  unfold conv_interact
  rw [if_pos rfl]
  refine Keeps.bind (keeps_gSendInt (.rest .server .arr [.int] (.replyArr c pw)) rfl rfl ?_)
  refine Keeps.bind (keeps_send (P := greetProtocol strict)
    (.rest .server .int [] (.replyArr c pw)) rfl rfl ?_)
  refine Keeps.bind (keeps_gSendInt (.replyArr c pw) rfl rfl ?_)
  refine keeps_gRecvArr rfl fun i s' hn => ?_
  cases i with
  | int _ => cases hn
  | str _ => cases hn
  | argv _ => cases hn
  | arr data =>
    refine ⟨data, rfl, rfl, id, ?_⟩
    cases data with
    | none => exact Or.inl ⟨rfl, rfl, (Option.some.inj hn).symm ▸ rfl⟩
    | some x =>
      obtain rfl := Option.some.inj hn
      exact Or.inr ⟨x, rfl, ⟨pw, rfl, hk, ha⟩, fun _ => Or.inl rfl⟩

/-- `conv_auto` has the password from the configuration. -/
def Supplied (gconv : GConv) (usecur : Bool) (v : Vars) : Prop :=
  gconv = .auto → usecur = true ∧ v.curpass ≠ none

theorem keeps_usePass {gconv : GConv} {p : Text} (hs : Supplied gconv true v) (hk : Known pw v)
    (ha : v.abort = false) : Keeps (greetProtocol strict) .server (Asked strict c p v)
      (usePass gconv : Session ε (Option Text)) v (some (.verify c pw)) := by
  unfold usePass
  simp only [keeps_vars_bind]
  split
  · rename_i hpass
    have hg : gconv = .interact := by
      cases gconv with
      | interact => rfl
      | auto => exact absurd hpass (hs rfl).2
    subst hg
    refine Keeps.bind (keeps_ask (by decide) (fun _ => ?_) fun ret tag ph ht => ?_)
    · simp only [keeps_vars_bind, keeps_pure]
      exact ⟨rfl, id, Or.inl ⟨hpass, rfl, rfl⟩⟩
    · obtain rfl := Option.some.inj ht
      refine ⟨rfl, fun _ => by simp [keepReply], Or.inr ⟨ret, rfl, ⟨_, rfl, ?_, ha⟩, fun _ => Or.inl rfl⟩⟩
      exact fun _ => by simp [keepReply]
  · rename_i hpass
    obtain ⟨x, hx⟩ := Option.ne_none_iff_exists'.mp hpass
    exact ⟨rfl, id, Or.inr ⟨x, hx, ⟨pw, rfl, hk, ha⟩, fun _ => Or.inl rfl⟩⟩

/-- What the reply to a prompt leaves behind. -/
structure Replied (strict : Bool) (c : Change) (p : Text) (v : Vars) (r : Option Text) (w : Vars)
    (o : Option Phase) : Prop where
  pamh : w.pamh = v.pamh
  pass : v.curpass ≠ none → w.curpass ≠ none
  reply : (r = none ∧ w.curuser = v.curuser ∧ (Aborted w o ∨ Going c w o)) ∨
    ∃ x, r = some x ∧ Going c w o ∧
      (strict = true → w.curuser = v.curuser ∨ p = USER_PROMPT ∧ w.curuser = some x)

/-- A null pointer sets `abort`. -/
theorem keeps_of_asked {p : Text} {act : Session ε (Option Text)}
    (h : Keeps (greetProtocol strict) .server (Asked strict c p v) act v (some (.verify c pw))) :
    Keeps (greetProtocol strict) .server (Replied strict c p v)
      (some <$> act >>= fun r => match r with
        | none => pure none
        | some none => assign (fun v => { v with abort := true }) >>= fun _ => pure none
        | some (some r) => pure (some r)) v (some (.verify c pw)) := by
  refine Keeps.bind (Keeps.bind (h.mono fun r w o hw => ?_))
  obtain ⟨hpamh, hpass, ⟨rfl, rfl, rfl⟩ | ⟨x, rfl, hgo, huser⟩⟩ := hw
  · exact ⟨rfl, id, Or.inl ⟨rfl, rfl, Or.inl ⟨rfl, rfl⟩⟩⟩
  · exact ⟨hpamh, hpass, Or.inr ⟨x, rfl, hgo, huser⟩⟩

/-- One prompt of a module. -/
theorem keeps_PAM_reply {usecur : Bool} {gconv : GConv} {m : Message}
    (hs : Supplied gconv usecur v) (hk : Known pw v) (ha : v.abort = false) :
    Keeps (greetProtocol strict) .server (Replied strict c m.msg v)
      (PAM_reply usecur gconv m : Session ε (Option Text)) v (some (.verify c pw)) := by
  have hnone : Replied strict c m.msg v none v (some (.verify c pw)) :=
    ⟨rfl, id, Or.inl ⟨rfl, rfl, Or.inr ⟨pw, rfl, hk, ha⟩⟩⟩
  unfold PAM_reply PAM_prompt
  cases usecur with
  | true =>
    simp only [if_true]
    cases hm : m.msg_style with
    | PAM_PROMPT_ECHO_OFF => exact keeps_of_asked (keeps_usePass hs hk ha)
    | _ => exact hnone
  | false =>
    have hg : gconv = .interact := by
      cases gconv with
      | interact => rfl
      | auto => exact absurd (hs rfl).1 (by decide)
    subst hg
    simp only [Bool.false_eq_true, if_false]
    cases hm : m.msg_style with
    | PAM_PROMPT_ECHO_ON => exact keeps_of_asked (keeps_ask_text (Or.inl rfl) hk ha)
    | PAM_PROMPT_ECHO_OFF => exact keeps_of_asked (keeps_ask_text (Or.inr rfl) hk ha)
    | PAM_BINARY_PROMPT => exact keeps_of_asked (keeps_ask_binary hk ha)
    | _ => exact hnone

/-! ## Conversations -/

/-- What a conversation of a module leaves behind. -/
structure Conversed (strict : Bool) (c : Change) (v : Vars) (r : Option (List (Option Text)))
    (w : Vars) (o : Option Phase) : Prop where
  pamh : w.pamh = v.pamh
  pass : v.curpass ≠ none → w.curpass ≠ none
  user : strict = true → w.curuser = v.curuser
  ends : (r = none ∧ Aborted w o) ∨ Going c w o

theorem Conversed.trans {r r' : Option (List (Option Text))}
    {u : Vars} (h : Conversed strict c v r w o) (h' : Conversed strict c w r' u o) :
    Conversed strict c v r' u o :=
  ⟨h'.pamh.trans h.pamh, h'.pass ∘ h.pass, fun hs => (h'.user hs).trans (h.user hs), h'.ends⟩

theorem message_of_verify {lv : Code} (h : isMessage lv = true)
    (ht : lv ≠ V_GET_TEXT) (hb : lv ≠ V_GET_BINARY) :
    (Phase.verify c pw).next strict (.int lv) = some (message (.verify c pw)) := by
  simp [Phase.next, afterVerify, h, ht, hb]

/-- A message of a module is displayed. -/
theorem keeps_inform {Q : Unit → Vars → Option Phase → Prop} {msg : Option Text} (b : Bool)
    (h : Q () v (some (.verify c pw))) : Keeps (greetProtocol strict) .server Q
      (displayStr (if b then V_MSG_INFO_AUTH else V_MSG_INFO) msg : Session ε Unit) v
      (some (.verify c pw)) := by
  refine keeps_displayStr rfl ?_ h
  cases b <;> exact message_of_verify (by decide) (by decide) (by decide)

theorem keeps_complain {Q : Unit → Vars → Option Phase → Prop} {msg : Option Text}
    (h : Q () v (some (.verify c pw))) : Keeps (greetProtocol strict) .server Q
      (displayStr V_MSG_ERR msg : Session ε Unit) v (some (.verify c pw)) :=
  keeps_displayStr rfl (message_of_verify (by decide) (by decide) (by decide)) h

/-- The rest of the messages, behind a reply. -/
theorem Conversed.after {u : Vars} {o' : Option Phase} {r : Option (List (Option Text))}
    (x : Option Text) (hpamh : w.pamh = v.pamh) (hpass : v.curpass ≠ none → w.curpass ≠ none)
    (huser : strict = true → w.curuser = v.curuser) (h : Conversed strict c w r u o') :
    Conversed strict c v (r.map (x :: ·)) u o' := by
  refine ⟨h.pamh.trans hpamh, h.pass ∘ hpass, fun hs => (h.user hs).trans (huser hs), ?_⟩
  obtain ⟨rfl, ha⟩ | hgo := h.ends
  · exact Or.inl ⟨rfl, ha⟩
  · exact Or.inr hgo

/-- The loop over the messages, when none of them is PAM's own question for the name. -/
theorem keeps_PAM_conv {usecur : Bool} {gconv : GConv} (msgs : List Message)
    (hown : ∀ m ∈ msgs, m.msg ≠ USER_PROMPT) (hs : Supplied gconv usecur v) (hk : Known pw v)
    (ha : v.abort = false) : Keeps (greetProtocol strict) .server (Conversed strict c v)
      (PAM_conv usecur gconv msgs : Session ε (Option (List (Option Text)))) v
      (some (.verify c pw)) := by
  induction msgs generalizing v pw with
  | nil => exact ⟨rfl, id, fun _ => rfl, Or.inr ⟨pw, rfl, hk, ha⟩⟩
  | cons m msgs ih =>
    have hown' : ∀ m ∈ msgs, m.msg ≠ USER_PROMPT := fun m hm => hown m (List.mem_cons_of_mem _ hm)
    have hinform : ∀ x, Keeps (greetProtocol strict) .server (Conversed strict c v)
        (PAM_conv usecur gconv msgs >>= fun reply => pure (reply.map (x :: ·)) :
          Session ε (Option (List (Option Text)))) v (some (.verify c pw)) := by
      intro x
      refine Keeps.bind ((ih hown' hs hk ha).mono fun r u o' h => ?_)
      exact Conversed.after x rfl id (fun _ => rfl) h
    unfold PAM_conv
    split
    · rw [keeps_vars_bind]
      exact Keeps.bind (keeps_inform _ (hinform none))
    · exact Keeps.bind (keeps_complain (hinform none))
    · refine Keeps.bind ((keeps_PAM_reply hs hk ha).mono fun r w o' hr => ?_)
      obtain ⟨hpamh, hpass, ⟨rfl, huser, hend⟩ | ⟨x, rfl, ⟨pw', rfl, hk', ha'⟩, huser⟩⟩ := hr
      · exact ⟨hpamh, hpass, fun _ => huser, hend.imp (fun h => ⟨rfl, h⟩) id⟩
      · have huser' : strict = true → w.curuser = v.curuser := fun hst =>
          (huser hst).resolve_right fun h => hown m List.mem_cons_self h.1
        have hs' : Supplied gconv usecur w := fun hg => ⟨(hs hg).1, hpass (hs hg).2⟩
        refine Keeps.bind ((ih hown' hs' hk' ha').mono fun r u o' h => ?_)
        exact Conversed.after (some x) hpamh hpass huser' h

/-- A name that the handle has is the one of the session process, if that has one. -/
def Agree (v : Vars) : Prop := ∀ h, v.pamh = some h → v.curuser = none ∨ h.user = v.curuser

/-- What a function of PAM leaves behind. -/
structure Called (strict : Bool) (v w : Vars) : Prop where
  pass : v.curpass ≠ none → w.curpass ≠ none
  passed : ∀ h, v.pamh = some h → ∃ h', w.pamh = some h' ∧ h'.passed = h.passed
  user : strict = true → Agree v → Agree w ∧ (v.curuser = none ∨ w.curuser = v.curuser)

theorem Called.refl : Called strict v v :=
  ⟨id, fun h hh => ⟨h, hh, rfl⟩, fun _ ha => ⟨ha, Or.inr rfl⟩⟩

theorem Called.trans {u : Vars} (h : Called strict v w) (h' : Called strict w u) :
    Called strict v u := by
  refine ⟨h'.pass ∘ h.pass, fun x hx => ?_, fun hs ha => ?_⟩
  · obtain ⟨y, hy, hxy⟩ := h.passed x hx
    obtain ⟨z, hz, hyz⟩ := h'.passed y hy
    exact ⟨z, hz, hyz.trans hxy⟩
  · obtain ⟨hw, hvw⟩ := h.user hs ha
    obtain ⟨hu, hwu⟩ := h'.user hs hw
    refine ⟨hu, ?_⟩
    obtain hv | hvw := hvw
    · exact Or.inl hv
    · exact hwu.imp (fun hw => hvw ▸ hw) fun hwu => hwu.trans hvw

theorem Conversed.called {r : Option (List (Option Text))} (h : Conversed strict c v r w o) :
    Called strict v w := by
  refine ⟨h.pass, fun x hx => ⟨x, h.pamh.trans hx, rfl⟩, fun hs ha => ⟨fun x hx => ?_, ?_⟩⟩
  · rw [h.user hs]
    exact ha x (h.pamh.symm.trans hx)
  · exact Or.inr (h.user hs)

/-- `PAM_USER`: a name that is asked for becomes the name of the handle, and no other one is kept. -/
theorem keeps_pam_get_user {usecur : Bool} {gconv : GConv} (hs : Supplied gconv usecur v)
    (hk : Known pw v) (ha : v.abort = false) (hp : v.pamh ≠ none) : Keeps (greetProtocol strict) .server
      (fun r w o => Called strict v w ∧ ((r = none ∧ Aborted w o) ∨ Going c w o))
      (pam_get_user usecur gconv : Session ε (Option Text)) v (some (.verify c pw)) := by
  unfold pam_get_user
  rw [keeps_vars_bind]
  cases hu : v.pamh.bind Handle.user with
  | some u => exact ⟨Called.refl, Or.inr ⟨pw, rfl, hk, ha⟩⟩
  | none =>
    have hnone : ∀ h, v.pamh = some h → h.user = none := by
      intro h hh
      simpa [hh] using hu
    unfold PAM_conv
    refine Keeps.bind (Keeps.bind ((keeps_PAM_reply hs hk ha).mono fun r w o hr => ?_))
    obtain ⟨hpamh, hpass, ⟨rfl, huser, hend⟩ | ⟨x, rfl, hgo, huser⟩⟩ := hr
    · refine ⟨⟨hpass, fun h hh => ⟨h, hpamh.trans hh, rfl⟩, fun _ hag => ⟨fun h hh => ?_,
        Or.inr huser⟩⟩, hend.imp (fun h => ⟨rfl, h⟩) id⟩
      rw [huser]
      exact hag h (hpamh.symm.trans hh)
    · refine ⟨⟨hpass, fun h hh => ?_, fun hst hag => ?_⟩, Or.inr ?_⟩
      · refine ⟨{ h with user := some x }, ?_, rfl⟩
        simp [hpamh, hh]
      · have hcur : ∀ h, v.pamh = some h → v.curuser = none := by
          intro h hh
          obtain hv | hv := hag h hh
          · exact hv
          · exact hv.symm.trans (hnone h hh)
        have hcases : w.curuser = v.curuser ∨ w.curuser = some x := (huser hst).imp id And.right
        refine ⟨fun h hh => ?_, ?_⟩
        · simp only [hpamh, Option.map_eq_some_iff] at hh
          obtain ⟨h', hh', rfl⟩ := hh
          obtain hw | hw := hcases
          · exact Or.inl (hw.trans (hcur h' hh'))
          · exact Or.inr hw.symm
        · obtain ⟨h, hh⟩ := Option.ne_none_iff_exists'.mp hp
          exact Or.inl (hcur h hh)
      · obtain ⟨pw', rfl, hk', ha'⟩ := hgo
        exact ⟨pw', rfl, hk', ha'⟩

theorem Called.handle (h : Called strict v w) (hp : v.pamh ≠ none) : w.pamh ≠ none := by
  obtain ⟨x, hx⟩ := Option.ne_none_iff_exists'.mp hp
  obtain ⟨y, hy, -⟩ := h.passed x hx
  simp [hy]

theorem Called.supplied {usecur : Bool} {gconv : GConv} (h : Called strict v w)
    (hs : Supplied gconv usecur v) : Supplied gconv usecur w :=
  fun hg => ⟨(hs hg).1, h.pass (hs hg).2⟩

/-- **A function of PAM**: the session process has the word again, unless the greeter has refused to
reply; then PAM was silent. -/
theorem keeps_call {usecur : Bool} {gconv : GConv} {p : Pam} (ht : p.Tame)
    (hs : Supplied gconv usecur v) (hk : Known pw v) (ha : v.abort = false) (hp : v.pamh ≠ none) :
    Keeps (greetProtocol strict) .server
      (fun _ w o => Called strict v w ∧ (Aborted w o ∨ Going c w o))
      (call usecur gconv p : Session ε PamCode) v (some (.verify c pw)) := by
  induction ht generalizing v pw with
  | ret code => exact ⟨Called.refl, Or.inr ⟨pw, rfl, hk, ha⟩⟩
  | @conv msgs k hown hnone hsome ih =>
    unfold call
    refine Keeps.bind ((keeps_PAM_conv msgs hown hs hk ha).mono fun r w o hr => ?_)
    obtain ⟨code, hcode⟩ := hnone
    obtain ⟨rfl, habort⟩ | ⟨pw', rfl, hk', ha'⟩ := hr.ends
    · rw [hcode]
      exact ⟨hr.called, Or.inl habort⟩
    · cases r with
      | none =>
        rw [hcode]
        exact ⟨hr.called, Or.inr ⟨pw', rfl, hk', ha'⟩⟩
      | some l =>
        refine (ih l (hr.called.supplied hs) hk' ha' (hr.called.handle hp)).mono fun _ u o h => ?_
        exact ⟨hr.called.trans h.1, h.2⟩
  | @user k hnone hsome ih =>
    unfold call
    refine Keeps.bind ((keeps_pam_get_user hs hk ha hp).mono fun r w o hr => ?_)
    obtain ⟨code, hcode⟩ := hnone
    obtain ⟨hcalled, ⟨rfl, habort⟩ | ⟨pw', rfl, hk', ha'⟩⟩ := hr
    · rw [hcode]
      exact ⟨hcalled, Or.inl habort⟩
    · cases r with
      | none =>
        rw [hcode]
        exact ⟨hcalled, Or.inr ⟨pw', rfl, hk', ha'⟩⟩
      | some u =>
        refine (ih u (hcalled.supplied hs) hk' ha' (hcalled.handle hp)).mono fun _ u o h => ?_
        exact ⟨hcalled.trans h.1, h.2⟩

/-- A function that asks nothing changes nothing. -/
theorem keeps_call_displays {usecur : Bool} {gconv : GConv} {p : Pam} (hd : p.Displays)
    {Q : PamCode → Vars → Option Phase → Prop} (h : ∀ code, Q code v (some (.verify c pw))) :
    Keeps (greetProtocol strict) .server Q (call usecur gconv p : Session ε PamCode) v
      (some (.verify c pw)) := by
  induction hd with
  | ret code => exact h code
  | @conv msgs k hmsg hk ih =>
    have hconv : ∀ (l : List Message), (∀ m ∈ l, m.msg_style = .PAM_TEXT_INFO ∨
        m.msg_style = .PAM_ERROR_MSG) → Keeps (greetProtocol strict) .server
          (fun _ w o => w = v ∧ o = some (.verify c pw))
          (PAM_conv usecur gconv l : Session ε (Option (List (Option Text)))) v
          (some (.verify c pw)) := by
      intro l hl
      induction l with
      | nil => exact ⟨rfl, rfl⟩
      | cons m l ihl =>
        have hrest := ihl fun m hm => hl m (List.mem_cons_of_mem _ hm)
        unfold PAM_conv
        obtain hm | hm := hl m List.mem_cons_self
        · simp only [hm, keeps_vars_bind]
          exact Keeps.bind (keeps_inform _ (Keeps.bind hrest))
        · simp only [hm]
          exact Keeps.bind (keeps_complain (Keeps.bind hrest))
    unfold call
    refine Keeps.bind ((hconv msgs hmsg).mono fun r w o hr => ?_)
    obtain ⟨rfl, rfl⟩ := hr
    exact ih r

/-! ## Authentication -/

/-- Where a refusal leads to while the user is authenticated. -/
def refused : Change → Phase
  | .none => .command .login
  | _ => .verify .auth false

/-- PAM has refused the user. -/
def Denied (c : Change) (w : Vars) (o : Option Phase) : Prop :=
  w.abort = false ∧ o = some (refused c)

theorem next_refused {code : Code} (hc : c ≠ .change) (h : code = V_AUTH ∨ code = V_FAIL) :
    (Phase.verify c pw).next strict (.int code) = some (refused c) := by
  obtain rfl | rfl := h
  · cases c with
    | none => rfl
    | auth => rfl
    | change => exact absurd rfl hc
  · cases c with
    | none => rfl
    | auth => rfl
    | change => exact absurd rfl hc

theorem keeps_V_RET {Q : Bool → Vars → Option Phase → Prop}
    (h : Q false { v with curpass := none } o) :
    Keeps (greetProtocol strict) .server Q (V_RET : Session ε Bool) v o := h

theorem keeps_V_RET_AUTH {Q : Bool → Vars → Option Phase → Prop} (hc : c ≠ .change)
    (h : Q false { v with curpass := none } (some (refused c))) :
    Keeps (greetProtocol strict) .server Q (V_RET_AUTH : Session ε Bool) v
      (some (.verify c pw)) :=
  Keeps.bind (keeps_gSendInt _ rfl (next_refused hc (Or.inl rfl)) (keeps_V_RET h))

theorem keeps_V_RET_FAIL {Q : Bool → Vars → Option Phase → Prop} {m : Option Text}
    (hc : c ≠ .change) (h : Q false { v with curpass := none } (some (refused c))) :
    Keeps (greetProtocol strict) .server Q (V_RET_FAIL m : Session ε Bool) v
      (some (.verify c pw)) :=
  Keeps.bind (keeps_complain
    (Keeps.bind (keeps_gSendInt _ rfl (next_refused hc (Or.inr rfl)) (keeps_V_RET h))))

/-- `pam_authenticate`: the handle keeps whether it was content. -/
theorem keeps_authenticate {usecur : Bool} {gconv : GConv} (hpam : core.pam.Tame)
    (hs : Supplied gconv usecur v) (hk : Known pw v) (ha : v.abort = false) (hp : v.pamh ≠ none)
    (hag : Agree v) : Keeps (greetProtocol strict) .server
      (fun code w o => (Aborted w o ∨ Going c w o) ∧ (v.curpass ≠ none → w.curpass ≠ none) ∧
        (strict = true → Agree w ∧ (v.curuser = none ∨ w.curuser = v.curuser)) ∧
        ∃ h, w.pamh = some h ∧ h.passed = decide (code = .PAM_SUCCESS))
      (authenticate core usecur gconv : Session ε PamCode) v (some (.verify c pw)) := by
  unfold authenticate
  simp only [keeps_assign_bind, keeps_vars_bind]
  refine Keeps.bind ((keeps_call (v := { v with inAuth := true }) (hpam.authenticate _) hs hk ha
    hp).mono fun code w o hw => ?_)
  obtain ⟨hcalled, hend⟩ := hw
  refine ⟨hend, hcalled.pass, fun hst => ?_, ?_⟩
  · obtain ⟨hagw, hcur⟩ := hcalled.user hst hag
    refine ⟨fun h hh => ?_, hcur⟩
    simp only [Option.map_eq_some_iff] at hh
    obtain ⟨h', hh', rfl⟩ := hh
    exact hagw h' hh'
  · obtain ⟨h, hh⟩ := Option.ne_none_iff_exists'.mp (hcalled.handle hp)
    exact ⟨{ h with passed := decide (code = .PAM_SUCCESS) }, by simp [hh], rfl⟩

/-- Behind `putUser` the name of the handle is the one of the session process. -/
theorem keeps_putUser {h : Handle} (hh : v.pamh = some h) (hk : Known pw v) (ha : v.abort = false) :
    Keeps (greetProtocol strict) .server
      (fun _ w o => Going c w o ∧ w.pamh = some h ∧ w.curpass = v.curpass ∧
        (Agree v → h.user = w.curuser) ∧ (v.curuser = none ∨ w.curuser = v.curuser))
      (putUser : Session ε Unit) v (some (.verify c pw)) := by
  unfold putUser
  simp only [keeps_vars_bind]
  split
  · rename_i hcur
    simp only [keeps_assign_bind]
    refine Keeps.bind (keeps_gSendInt (.rest .server .str [] (.verify c pw)) rfl rfl ?_)
    refine keeps_send_rest (i := .str _) ⟨⟨pw, rfl, hk, ha⟩, hh, rfl, fun _ => ?_, Or.inl hcur⟩
    simp [hh]
  · rename_i hcur
    exact ⟨⟨pw, rfl, hk, ha⟩, hh, rfl, fun hag => (hag h hh).resolve_left hcur, Or.inr rfl⟩

/-- The handle that has passed has the name of the session process. -/
def Passed (strict : Bool) (w : Vars) : Prop :=
  ∃ h, w.pamh = some h ∧ h.passed = true ∧ (strict = true → h.user = w.curuser)

/-- The end of an authentication. -/
structure Tried (strict : Bool) (c : Change) (v : Vars) (ok : Bool) (w : Vars)
    (o : Option Phase) : Prop where
  user : strict = true → v.curuser = none ∨ w.curuser = v.curuser
  yes : ok = true → Going c w o ∧ (v.curpass ≠ none → w.curpass ≠ none) ∧ Passed strict w
  no : ok = false → Aborted w o ∨ Denied c w o

theorem keeps_doPAMAuth {usecur : Bool} {gconv : GConv} {psrv : Text} (hpam : core.pam.Tame)
    (hc : c ≠ .change) (hs : Supplied gconv usecur v) (hk : Known pw v) :
    Keeps (greetProtocol strict) .server (Tried strict c v)
      (doPAMAuth core psrv usecur gconv : Session ε Bool) v (some (.verify c pw)) := by
  have hdenied : ∀ w : Vars, w.abort = false → (strict = true → v.curuser = none ∨
      w.curuser = v.curuser) → Tried strict c v false w (some (refused c)) :=
    fun w hw hu => ⟨hu, (fun h => by cases h), fun _ => Or.inr ⟨hw, rfl⟩⟩
  unfold doPAMAuth
  simp only [keeps_assign_bind, keeps_vars_bind]
  split
  · exact keeps_V_RET_FAIL hc (hdenied _ rfl fun _ => Or.inr rfl)
  simp only [keeps_assign_bind]
  split
  · exact keeps_V_RET_FAIL hc (hdenied _ rfl fun _ => Or.inr rfl)
  refine Keeps.bind ((keeps_authenticate (v := { v with
      abort := false, calls := v.calls + 1, pamh := some ⟨v.curuser, false⟩ })
    hpam hs hk rfl (by simp) fun h hh => ?_).mono fun code w o hw => ?_)
  · obtain rfl := Option.some.inj hh
    exact Or.inr rfl
  obtain ⟨hend, hpass, huser, h, hh, hpassed⟩ := hw
  simp only [keeps_vars_bind]
  obtain ⟨ho, hab⟩ | ⟨pw', rfl, hk', hab⟩ := hend
  · rw [if_pos hab]
    exact ⟨fun hst => (huser hst).2, (fun h => by cases h), fun _ => Or.inl ⟨ho, hab⟩⟩
  rw [if_neg (by simp [hab])]
  refine Keeps.bind ((keeps_putUser hh hk' hab).mono fun _ u o hu => ?_)
  obtain ⟨⟨pw'', rfl, hk'', hab'⟩, hh', hpass', hag, hcur⟩ := hu
  have hcuru : strict = true → v.curuser = none ∨ u.curuser = v.curuser := by
    intro hst
    obtain hv | hv := (huser hst).2
    · exact Or.inl hv
    · obtain hw | hw := hcur
      · exact Or.inl (hv ▸ hw)
      · exact Or.inr (hw.trans hv)
  split
  · refine ⟨hcuru, fun _ => ⟨⟨pw'', rfl, hk'', hab'⟩, fun hv => ?_, ?_⟩, (fun h => by cases h)⟩
    · rw [hpass']
      exact hpass hv
    · exact ⟨h, hh', hpassed.trans (by decide), fun hst => hag (huser hst).1⟩
  all_goals first
    | exact keeps_V_RET_AUTH hc (hdenied _ hab' hcuru)
    | exact keeps_V_RET_FAIL hc (hdenied _ hab' hcuru)

/-! ## The expired password -/

/-- The handle has passed, with the name `u`. -/
def Owned (strict : Bool) (u : Text) (w : Vars) : Prop :=
  ∃ h, w.pamh = some h ∧ h.passed = true ∧ (strict = true → h.user = some u ∧ w.curuser = some u)

theorem Owned.handle {u : Text} (h : Owned strict u v) : v.pamh ≠ none := by
  obtain ⟨x, hx, -, -⟩ := h
  simp [hx]

/-- PAM does not change the name of a handle. -/
theorem Owned.called {u : Text} (h : Owned strict u v) (hc : Called strict v w) :
    Owned strict u w := by
  obtain ⟨x, hx, hpassed, huser⟩ := h
  obtain ⟨y, hy, hxy⟩ := hc.passed x hx
  refine ⟨y, hy, hxy.trans hpassed, fun hst => ?_⟩
  obtain ⟨hxu, hvu⟩ := huser hst
  have hag : Agree v := by
    intro z hz
    obtain rfl := Option.some.inj (hx.symm.trans hz)
    exact Or.inr (hxu.trans hvu.symm)
  obtain ⟨hagw, hcur⟩ := hc.user hst hag
  have hwu : w.curuser = some u := by
    obtain hnone | hsame := hcur
    · rw [hvu] at hnone
      cases hnone
    · exact hsame.trans hvu
  refine ⟨?_, hwu⟩
  obtain hnone | hsame := hagw y hy
  · rw [hwu] at hnone
    cases hnone
  · exact hsame.trans hwu

/-- The end of `verify`, but for the restrictions on the user. -/
structure Finished (strict : Bool) (u : Text) (ok : Bool) (w : Vars) (o : Option Phase) : Prop where
  yes : ok = true → (∃ c pw, o = some (.verify c pw)) ∧ Owned strict u w
  no : ok = false → o = some (.command .login)

/-- A new password is asked for until PAM takes it. -/
theorem keeps_chauthtok {u : Text} (hpam : core.pam.Tame) (n : Nat) (hk : Known pw v)
    (ha : v.abort = false) (hu : Owned strict u v) :
    Keeps (greetProtocol strict) .server (Finished strict u) (chauthtok core n : Session ε Bool) v
      (some (.verify .change pw)) := by
  induction n generalizing v pw with
  | zero => exact keeps_goOn
  | succ n ih =>
    unfold chauthtok
    simp only [keeps_assign_bind, keeps_vars_bind]
    refine Keeps.bind ((keeps_call (v := { v with inAuth := true, calls := v.calls + 1 })
      (hpam.chauthtok _) (fun hg => by cases hg) hk ha hu.handle).mono fun code w o hw => ?_)
    obtain ⟨hcalled, hend⟩ := hw
    have hw : Owned strict u w := Owned.called (v := { v with inAuth := true, calls := v.calls + 1 })
      hu hcalled
    simp only [keeps_assign_bind, keeps_vars_bind]
    obtain ⟨rfl, hab⟩ | ⟨pw', rfl, hk', hab⟩ := hend
    · rw [if_pos hab]
      exact ⟨(fun h => by cases h), fun _ => rfl⟩
    rw [if_neg (by simp [hab])]
    split
    · exact ⟨fun _ => ⟨⟨_, _, rfl⟩, hw⟩, (fun h => by cases h)⟩
    · exact Keeps.bind (keeps_gSendInt (.verify .change pw') rfl rfl (ih hk' hab hw))

/-- The user is authenticated once more until PAM is content. -/
theorem keeps_reauth {u : Text} (hpam : core.pam.Tame) (n : Nat) (hk : Known pw v)
    (hu : strict = true → v.curuser = some u) :
    Keeps (greetProtocol strict) .server
      (fun ok w o => (ok = true → Going .auth w o ∧ Owned strict u w) ∧
        (ok = false → o = some (.command .login)))
      (reauth core n : Session ε Bool) v (some (.verify .auth pw)) := by
  induction n generalizing v pw with
  | zero => exact keeps_goOn
  | succ n ih =>
    unfold reauth
    refine Keeps.bind ((keeps_doPAMAuth hpam (by decide) (fun hg => by cases hg) hk).mono
      fun ok w o hw => ?_)
    have hwu : strict = true → w.curuser = some u := by
      intro hst
      obtain hnone | hsame := hw.user hst
      · rw [hu hst] at hnone
        cases hnone
      · exact hsame.trans (hu hst)
    cases ok with
    | true =>
      obtain ⟨hgo, -, h, hh, hpassed, huser⟩ := hw.yes rfl
      rw [if_pos rfl]
      exact ⟨fun _ => ⟨hgo, h, hh, hpassed, fun hst => ⟨(huser hst).trans (hwu hst), hwu hst⟩⟩,
        (fun h => by cases h)⟩
    | false =>
      rw [if_neg (by decide), keeps_vars_bind]
      obtain ⟨rfl, hab⟩ | ⟨hab, rfl⟩ := hw.no rfl
      · rw [if_pos hab]
        exact ⟨(fun h => by cases h), fun _ => rfl⟩
      · rw [if_neg (by simp [hab])]
        exact ih (fun h => by cases h) hwu

theorem keeps_pam_end_bind {Q : Bool → Vars → Option Phase → Prop} {f : Unit → Session ε Bool} :
    Keeps (greetProtocol strict) .server Q (pam_end >>= f) v o ↔
      Keeps (greetProtocol strict) .server Q (f ()) { v with pamh := none } o := Iff.rfl

theorem keeps_renew {u : Text} {gconv : GConv} {pnopass : Bool} (hpam : core.pam.Tame) (n : Nat)
    (hk : Known pw v) (ha : v.abort = false) (hu : Owned strict u v) :
    Keeps (greetProtocol strict) .server (Finished strict u)
      (renew core gconv pnopass n : Session ε Bool) v (some (.verify .none pw)) := by
  have hcur : strict = true → v.curuser = some u := by
    obtain ⟨h, -, -, huser⟩ := hu
    exact fun hst => (huser hst).2
  unfold renew
  split
  · rw [keeps_pam_end_bind]
    refine Keeps.bind (keeps_gSendInt (.verify .auth pw) rfl rfl ?_)
    refine Keeps.bind ((keeps_reauth (v := { v with pamh := none }) hpam n hk hcur).mono
      fun ok w o hw => ?_)
    cases ok with
    | true =>
      obtain ⟨⟨pw', rfl, hk', ha'⟩, hown⟩ := hw.1 rfl
      rw [if_pos rfl]
      exact Keeps.bind (keeps_gSendInt (.verify .change pw') rfl rfl
        (keeps_chauthtok hpam n hk' ha' hown))
    | false =>
      rw [if_neg (by decide)]
      exact ⟨(fun h => by cases h), fun _ => hw.2 rfl⟩
  · exact Keeps.bind (keeps_gSendInt (.verify .change pw) rfl rfl
      (keeps_chauthtok hpam n hk ha hu))

/-! ## `verify` -/

theorem keeps_account {u : Text} {usecur : Bool} {gconv : GConv} {pnopass : Bool}
    (hpam : core.pam.Tame) (n : Nat) (hk : Known pw v) (ha : v.abort = false)
    (hu : Owned strict u v) : Keeps (greetProtocol strict) .server (Finished strict u)
      (account core usecur gconv pnopass n : Session ε Bool) v (some (.verify .none pw)) := by
  unfold account
  simp only [keeps_assign_bind, keeps_vars_bind]
  refine Keeps.bind (keeps_call_displays (hpam.acct_mgmt _) fun code => ?_)
  split
  · exact keeps_renew hpam n hk ha hu
  · exact ⟨fun _ => ⟨⟨_, _, rfl⟩, hu⟩, (fun h => by cases h)⟩
  · rw [keeps_pam_end_bind]
    exact keeps_V_RET_AUTH (by decide) ⟨(fun h => by cases h), fun _ => rfl⟩

/-- **The user of the session**: the handle has passed, with his name; and root is let in only where that
is allowed. -/
def Identified (core : Core) (strict : Bool) (w : Vars) : Prop :=
  ∃ h, w.pamh = some h ∧ h.passed = true ∧ (strict = true → ∃ u p, h.user = some u ∧
    w.curuser = some u ∧ core.db.getpwnam u = some p ∧ (p.pw_uid = 0 → core.allowRootLogin = true))

/-- The end of `verify`. -/
structure Judged (core : Core) (strict : Bool) (ok : Bool) (w : Vars) (o : Option Phase) : Prop where
  yes : ok = true → (∃ c pw, o = some (.verify c pw)) ∧ Identified core strict w
  no : ok = false → o = some (.command .login)

theorem judged_false : Judged core strict false w (some (.command .login)) := ⟨(fun h => by cases h), fun _ => rfl⟩

theorem keeps_restrict {usecur : Bool} {gconv : GConv} {pnopass : Bool} (hpam : core.pam.Tame)
    (n : Nat) (hk : Known pw v) (ha : v.abort = false) (hp : Passed strict v) :
    Keeps (greetProtocol strict) .server (Judged core strict)
      (restrict core usecur gconv pnopass false n : Session ε Bool) v
      (some (.verify .none pw)) := by
  obtain ⟨h, hh, hpassed, huser⟩ := hp
  unfold restrict
  simp only [keeps_vars_bind]
  cases hcur : v.curuser with
  | none => exact keeps_quit
  | some u =>
    dsimp only
    cases hdb : core.db.getpwnam u with
    | none => exact keeps_V_RET_FAIL (by decide) judged_false
    | some p =>
      dsimp only
      split
      · split
        · exact keeps_V_RET_FAIL (by decide) judged_false
        · rename_i hroot
          refine ⟨fun _ => ⟨⟨_, _, rfl⟩, h, hh, hpassed, fun hst => ?_⟩, (fun h => by cases h)⟩
          exact ⟨u, p, (huser hst).trans hcur, hcur, hdb, fun _ => by simpa using hroot⟩
      · rename_i hroot
        refine (keeps_account (u := u) hpam n hk ha
          ⟨h, hh, hpassed, fun hst => ⟨(huser hst).trans hcur, hcur⟩⟩).mono fun ok w o hw => ?_
        refine ⟨fun hok => ⟨(hw.yes hok).1, ?_⟩, hw.no⟩
        obtain ⟨x, hx, hxp, hxu⟩ := (hw.yes hok).2
        exact ⟨x, hx, hxp, fun hst => ⟨u, p, (hxu hst).1, (hxu hst).2, hdb, fun h => absurd h hroot⟩⟩

theorem keeps_authorize {usecur : Bool} {gconv : GConv} {pnopass : Bool} {psrv : Text}
    (hpam : core.pam.Tame) (n : Nat) (hs : Supplied gconv usecur v) (hk : Known pw v) :
    Keeps (greetProtocol strict) .server (Judged core strict)
      (authorize core psrv usecur gconv pnopass false n : Session ε Bool) v
      (some (.verify .none pw)) := by
  unfold authorize
  refine Keeps.bind ((keeps_doPAMAuth hpam (by decide) hs hk).mono fun ok w o hw => ?_)
  cases ok with
  | true =>
    obtain ⟨⟨pw', rfl, hk', ha⟩, -, hp⟩ := hw.yes rfl
    rw [if_pos rfl]
    exact keeps_restrict hpam n hk' ha hp
  | false =>
    rw [if_neg (by decide)]
    obtain ⟨rfl, -⟩ | ⟨-, rfl⟩ := hw.no rfl <;> exact judged_false

/-- The reply to a question without a text: `keepReply` puts it into the variable that is asked for. -/
theorem keeps_ask_null {Q : Option Text → Vars → Option Phase → Prop} {what : What}
    (hw : what ≠ .GCONV_BINARY) (hnull : what.ndelay = false → Q none v (some (.command .login)))
    (hreply : ∀ ret tag, Q (keepReply what ret tag v).1 (keepReply what ret tag v).2
      (some (.verify c (pw || flag what.echo == flag false)))) :
    Keeps (greetProtocol strict) .server Q (conv_interact what none : Session ε (Option Text)) v
      (some (.verify c pw)) := by
  refine keeps_ask hw hnull fun ret tag ph ht => ?_
  obtain rfl := Option.some.inj ht
  exact hreply ret tag

theorem keeps_auto_user {Q : Bool → Vars → Option Phase → Prop}
    {f : Option Text → Session ε Bool} :
    Keeps (greetProtocol strict) .server Q (GConv.auto.call .GCONV_USER none >>= f) v o ↔
      Keeps (greetProtocol strict) .server Q (f v.curuser) v o := Iff.rfl

theorem keeps_auto_pass {Q : Bool → Vars → Option Phase → Prop}
    {f : Option Text → Session ε Bool} :
    Keeps (greetProtocol strict) .server Q (GConv.auto.call .GCONV_PASS_ND none >>= f) v o ↔
      Keeps (greetProtocol strict) .server Q (f v.curpass) v o := Iff.rfl

/-- `verify` for a user that the greeter names, or for the one of the configuration. -/
theorem keeps_verify {gconv : GConv} (hpam : core.pam.Tame) (n : Nat)
    (hauto : gconv = .auto → v.curtype = some CLASSIC ∧ v.curuser ≠ none ∧ v.curpass ≠ none)
    (hk : Known pw v) : Keeps (greetProtocol strict) .server (Judged core strict)
      (verify core gconv false n : Session ε Bool) v (some (.verify .none pw)) := by
  unfold verify
  simp only [keeps_vars_bind]
  cases hcur : v.curtype with
  | none => exact keeps_quit
  | some curtype =>
    dsimp only
    split
    · -- the password is asked for by the modules, or here for a user that may do without one
      cases gconv with
      | interact =>
        refine Keeps.bind (keeps_ask_null (by decide) (fun _ => judged_false) fun ret tag => ?_)
        simp only [keepReply, keeps_vars_bind]
        split
        · refine Keeps.bind (keeps_ask_null (by decide) (fun h => by cases h) fun ret' tag' => ?_)
          simp only [keepReply, keeps_vars_bind]
          split
          · exact keeps_authorize hpam n (fun h => by cases h) fun _ => by simp
          · exact keeps_authorize hpam n (fun h => by cases h) fun _ => by simp
        · exact keeps_authorize hpam n (fun h => by cases h) fun h => hk (by simpa [What.echo, flag] using h)
      | auto =>
        obtain ⟨-, huser, hpass⟩ := hauto rfl
        obtain ⟨u, hu⟩ := Option.ne_none_iff_exists'.mp huser
        have hs : Supplied .auto true v := fun _ => ⟨rfl, hpass⟩
        rw [keeps_auto_user, hu]
        dsimp only
        rw [keeps_vars_bind]
        split
        · rw [keeps_auto_pass, keeps_vars_bind]
          split
          · exact keeps_authorize hpam n hs hk
          · exact keeps_authorize hpam n hs hk
        · exact keeps_authorize hpam n hs hk
    · rename_i htype
      have hg : gconv = .interact := by
        cases gconv with
        | interact => rfl
        | auto => exact absurd (Option.some.inj (hcur.symm.trans (hauto rfl).1)) htype
      subst hg
      exact keeps_authorize hpam n (fun h => by cases h) hk

/-! ## Commands -/

/-- What a command leaves behind: behind a login there is a user. -/
structure Served (core : Core) (strict : Bool) (st : Stage) (w : Vars) (o : Option Phase) :
    Prop where
  stage : ∃ st', o = some (.command st') ∧ (st' = st ∨ st = .login ∧ st' = .settled) ∧
    (st' = .settled → Identified core strict w)

theorem served_same {st : Stage} (h : st = .settled → Identified core strict w) :
    Served core strict st w (some (.command st)) := ⟨st, rfl, Or.inl rfl, h⟩

theorem keeps_reply {st : Stage} {i : Item} (h : st = .settled → Identified core strict v) :
    Keeps (greetProtocol strict) .server (fun _ => Served core strict st) (send i : Session ε Unit)
      v (some (.rest .server i.kind [] (.command st))) :=
  keeps_send_rest (served_same h)

/-- A status, and nothing else. -/
theorem keeps_status {st : Stage} {type sts : Code} (hsts : sts ≠ GE_Ok)
    (h : st = .settled → Identified core strict v) :
    Keeps (greetProtocol strict) .server (fun _ => Served core strict st)
      (gSendInt sts : Session ε Unit) v (some (.status type st)) := by
  refine keeps_gSendInt (.command st) rfl ?_ (served_same h)
  simp [Phase.next, afterStatus, hsts]

/-- A status, and the value, which has the type in its id. -/
theorem keeps_value {st : Stage} {type : Code} {i : Item}
    (hi : afterStatus type st GE_Ok = .rest .server i.kind [] (.command st))
    (h : st = .settled → Identified core strict v) :
    Keeps (greetProtocol strict) .server (fun _ => Served core strict st)
      (gSendInt GE_Ok >>= fun _ => send i : Session ε Unit) v (some (.status type st)) :=
  Keeps.bind (keeps_gSendInt _ rfl (congrArg some hi) (keeps_reply h))

theorem keeps_gGetCfg {st : Stage} (h : st = .settled → Identified core strict v) :
    Keeps (greetProtocol strict) .server (fun _ => Served core strict st)
      (gGetCfg core : Session ε Unit) v (some (.cfgType st)) := by
  unfold gGetCfg
  refine Keeps.bind (keeps_gRecvInt rfl fun i s' hn => ?_)
  cases i with
  | str _ => cases hn
  | arr _ => cases hn
  | argv _ => cases hn
  | int type =>
    refine ⟨type, rfl, ?_⟩
    obtain rfl := Option.some.inj hn
    split
    · rename_i ht
      exact keeps_value (i := .int _) (by subst ht; rfl) h
    split
    · rename_i ht
      exact keeps_value (i := .int _) (by subst ht; rfl) h
    split
    · rename_i ht
      exact keeps_value (i := .int _) (by subst ht; rfl) h
    split
    · rename_i ht
      exact keeps_value (i := .int _) (by subst ht; rfl) h
    split
    · exact keeps_status (by decide) h
    split
    · rename_i ht
      exact keeps_value (i := .int _) (by simp only [afterStatus, ht]; rfl) h
    rename_i hint
    split
    · rename_i ht
      exact keeps_value (i := .str _) (by simp only [afterStatus, ht]; rfl) h
    rename_i hstr
    split
    · rename_i ht
      exact keeps_value (i := .argv _) (by simp only [afterStatus, ht]; rfl) h
    rename_i hargv
    split
    · exact keeps_value (i := .arr _) (by simp [afterStatus, hint, hstr, hargv, Item.kind]) h
    · exact keeps_status (by decide) h

theorem keeps_gReadDmrc {st : Stage} (h : st = .settled → Identified core strict v) :
    Keeps (greetProtocol strict) .server (fun _ => Served core strict st)
      (gReadDmrc core : Session ε Unit) v
      (some (.rest .client .str [] (.rest .server .int [] (.command st)))) := by
  unfold gReadDmrc
  refine Keeps.bind (keeps_gRecvStr_rest _ fun name => ?_)
  rw [keeps_vars_bind]
  split
  · rw [keeps_assign_bind]
    exact keeps_reply (i := .int _) h
  · exact keeps_reply (i := .int _) h

theorem keeps_gGetDmrc {st : Stage} (h : st = .settled → Identified core strict v) :
    Keeps (greetProtocol strict) .server (fun _ => Served core strict st)
      (gGetDmrc core : Session ε Unit) v
      (some (.rest .client .str [] (.rest .server .str [] (.command st)))) := by
  unfold gGetDmrc
  refine Keeps.bind (keeps_gRecvStr_rest _ fun name => ?_)
  cases name with
  | none => exact keeps_quit
  | some name => exact keeps_reply (i := .str _) h

theorem keeps_gPutDmrc {st : Stage} (h : st = .settled → Identified core strict v) :
    Keeps (greetProtocol strict) .server (fun _ => Served core strict st)
      (gPutDmrc core : Session ε Unit) v (some (.rest .client .str [.str] (.command st))) := by
  unfold gPutDmrc
  refine Keeps.bind (keeps_gRecvStr rfl fun i s' hn => ?_)
  cases i with
  | int _ => cases hn
  | arr _ => cases hn
  | argv _ => cases hn
  | str name =>
    refine ⟨name, rfl, ?_⟩
    obtain rfl := Option.some.inj hn
    refine Keeps.bind (keeps_gRecvStr_rest _ fun pass => ?_)
    cases name with
    | none => exact keeps_quit
    | some name => exact served_same h

/-- `V_OK` for a user that is let in. -/
theorem keeps_answer {act : Session ε Bool} {s : Option Phase}
    (h : Keeps (greetProtocol strict) .server (Judged core strict) act v s) :
    Keeps (greetProtocol strict) .server (fun _ => Served core strict .login) (answer act) v s := by
  unfold answer
  refine Keeps.bind (h.mono fun ok w o hw => ?_)
  cases ok with
  | true =>
    obtain ⟨⟨c, pw, rfl⟩, hid⟩ := hw.yes rfl
    rw [if_pos rfl]
    exact keeps_gSendInt (.command .settled) rfl rfl
      ⟨.settled, rfl, Or.inr ⟨rfl, rfl⟩, fun _ => hid⟩
  | false =>
    rw [if_neg (by decide)]
    exact ⟨.login, hw.no rfl, Or.inl rfl, nofun⟩

theorem keeps_gVerify (hpam : core.pam.Tame) (n : Nat) :
    Keeps (greetProtocol strict) .server (fun _ => Served core strict .login)
      (gVerify core false n : Session ε Unit) v
      (some (.rest .client .str [] (.verify .none false))) := by
  unfold gVerify
  rw [keeps_assign_bind]
  refine Keeps.bind (keeps_gRecvStr_rest _ fun curtype => ?_)
  rw [keeps_assign_bind]
  exact keeps_answer (keeps_verify hpam n nofun nofun)

theorem keeps_gAutoLogin (hpam : core.pam.Tame) (n : Nat) :
    Keeps (greetProtocol strict) .server (fun _ => Served core strict .login)
      (gAutoLogin core n : Session ε Unit) v (some (.verify .none true)) := by
  unfold gAutoLogin doAutoLogon
  rw [keeps_assign_bind]
  exact keeps_answer (keeps_verify hpam n (fun _ => ⟨rfl, by simp, by simp⟩) fun _ => by simp)

/-- A command that is due is carried out. -/
theorem keeps_serve {st : Stage} {cmd : Code} {ph : Phase} (hpam : core.pam.Tame) (n : Nat)
    (hn : afterCommand st cmd = some ph) (hready : cmd ≠ G_Ready)
    (h : st = .settled → Identified core strict v) :
    ∃ act : Session ε Unit, serve core n cmd = some act ∧
      Keeps (greetProtocol strict) .server (fun _ => Served core strict st) act v (some ph) := by
  unfold afterCommand at hn
  rw [if_neg hready] at hn
  split at hn
  · rename_i hc
    obtain rfl := Option.some.inj hn
    exact ⟨pure (), by rw [hc]; rfl, served_same h⟩
  split at hn
  · rename_i hc
    obtain rfl := Option.some.inj hn
    exact ⟨_, by rw [hc]; rfl, keeps_gGetCfg h⟩
  split at hn
  · rename_i hc
    obtain rfl := Option.some.inj hn
    exact ⟨_, by rw [hc]; rfl, keeps_reply (v := { v with td_setup := false }) (i := .int 0) h⟩
  split at hn
  · rename_i hc
    obtain rfl := Option.some.inj hn
    exact ⟨_, by rw [hc]; rfl, keeps_gReadDmrc h⟩
  split at hn
  · rename_i hc
    obtain rfl := Option.some.inj hn
    exact ⟨_, by rw [hc]; rfl, keeps_gGetDmrc h⟩
  split at hn
  · rename_i hc
    obtain rfl := Option.some.inj hn
    exact ⟨_, by rw [hc]; rfl, keeps_gPutDmrc h⟩
  split at hn
  · rename_i hc
    obtain rfl := Option.some.inj hn
    obtain ⟨hc, rfl⟩ := hc
    exact ⟨_, by rw [hc]; rfl, keeps_gVerify hpam n⟩
  split at hn
  · rename_i hc
    obtain rfl := Option.some.inj hn
    obtain ⟨hc, rfl⟩ := hc
    exact ⟨_, by rw [hc]; rfl, keeps_gAutoLogin hpam n⟩
  · cases hn

/-- What `ctrlGreeterWait` results in: the greeter is ready, in the beginning or behind a login, or it is
gone. -/
def Awaited (core : Core) (strict : Bool) (st : Stage) (r : Cmd) (w : Vars) (o : Option Phase) :
    Prop :=
  (r = .lost ∧ o = none) ∨ r = .ready ∧
    ((st = .setup ∧ o = some .greet) ∨ (st ≠ .setup ∧ o = some .final ∧ Identified core strict w))

theorem Awaited.served {st st' : Stage} {r : Cmd} (h : Awaited core strict st' r w o)
    (hst : st' = st ∨ st = .login ∧ st' = .settled) : Awaited core strict st r w o := by
  obtain rfl | ⟨rfl, rfl⟩ := hst
  · exact h
  · obtain h | ⟨hr, ⟨h, -⟩ | ⟨-, h⟩⟩ := h
    · exact Or.inl h
    · cases h
    · exact Or.inr ⟨hr, Or.inr ⟨by decide, h⟩⟩

/-- The loop about the commands. -/
theorem keeps_ctrlGreeterWait (st : Stage) (hpam : core.pam.Tame) (n : Nat)
    (h : st = .settled → Identified core strict v) :
    Keeps (greetProtocol strict) .server (Awaited core strict st)
      (ctrlGreeterWait core n : Session ε Cmd) v (some (.command st)) := by
  induction n generalizing v st with
  | zero => exact keeps_goOn
  | succ n ih =>
    unfold ctrlGreeterWait gRecvCmd
    refine Keeps.bind (keeps_receive (P := greetProtocol strict) (by simp [greetProtocol, Phase.turn])
      (fun i s' hn => ?_) fun a ha => ?_)
    · cases i with
      | str _ => cases hn
      | arr _ => cases hn
      | argv _ => cases hn
      | int cmd =>
        refine ⟨some cmd, rfl, ?_⟩
        dsimp only
        split
        · rename_i hc
          subst hc
          cases st with
          | setup =>
            obtain rfl := Option.some.inj hn
            exact Or.inr ⟨rfl, Or.inl ⟨rfl, rfl⟩⟩
          | login => cases hn
          | settled =>
            obtain rfl := Option.some.inj hn
            exact Or.inr ⟨rfl, Or.inr ⟨by decide, rfl, h rfl⟩⟩
        · rename_i hready
          obtain ⟨act, hact, hk⟩ := keeps_serve (ε := ε) hpam n hn hready h
          rw [hact]
          refine Keeps.bind (hk.mono fun _ w o hw => ?_)
          obtain ⟨st', rfl, hst, hid⟩ := hw.stage
          exact (ih _ hid).mono fun r u o hr => hr.served hst
    · obtain rfl := Option.mem_some_iff.mp ha
      exact Or.inl ⟨rfl, rfl⟩

/-- **The session process up to the start of the client**: it keeps to the protocol, and the user is the
one that PAM has authenticated. -/
theorem greeting_keeps (hpam : core.pam.Tame) (timed : Bool) (n : Nat) :
    Keeps (greetProtocol strict) .server (Awaited core strict .login)
      (greeting core timed n : Session ε Cmd) v (some (.command .setup)) := by
  unfold greeting
  refine Keeps.bind ((keeps_ctrlGreeterWait .setup hpam n nofun).mono fun r w o hw => ?_)
  obtain ⟨rfl, rfl⟩ | ⟨rfl, ⟨-, rfl⟩ | ⟨h, -⟩⟩ := hw
  · exact Or.inl ⟨rfl, rfl⟩
  · refine Keeps.bind (keeps_gSendInt (.command .login) rfl ?_
      (keeps_ctrlGreeterWait .login hpam n nofun))
    cases timed <;> rfl
  · exact absurd rfl h

theorem keeps_startClient (msgs : List (Option Text)) :
    Keeps (greetProtocol strict) .server (fun _ w o => o = some .over ∧ w = v)
      (startClient msgs : Session ε Unit) v (some .final) := by
  induction msgs with
  | nil => exact keeps_gSendInt .over rfl rfl ⟨rfl, rfl⟩
  | cons msg msgs ih => exact Keeps.bind (keeps_displayStr rfl rfl ih)

/-- **The session process up to the end of the greeter** keeps to the protocol. -/
theorem manageSession_keeps (hpam : core.pam.Tame) (timed : Bool) (msgs : List (Option Text))
    (n : Nat) : Keeps (greetProtocol strict) .server
      (fun r w o => (r = .lost ∧ o = none) ∨ (r = .ready ∧ o = some .over ∧ Identified core strict w))
      (manageSession core timed msgs n : Session ε Cmd) v (some (.command .setup)) := by
  unfold manageSession
  refine Keeps.bind ((greeting_keeps hpam timed n).mono fun r w o hw => ?_)
  obtain ⟨rfl, rfl⟩ | ⟨rfl, ⟨h, -⟩ | ⟨-, rfl, hid⟩⟩ := hw
  · exact Or.inl ⟨rfl, rfl⟩
  · cases h
  · refine Keeps.bind ((keeps_startClient msgs).mono fun _ u o hu => ?_)
    exact Or.inr ⟨rfl, hu.1, hu.2 ▸ hid⟩

end Kdm.Login
