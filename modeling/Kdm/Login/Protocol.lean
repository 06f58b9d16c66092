import Kdm.Login.Session

/-!
# The protocol of the greeter

`greet.h` lists the commands of the greeter with what goes with them, and the codes of `verify`.  The
state of the protocol is what the next item is about.

* `Phase`, `greetProtocol` — whose turn it is, and what may be said.
* `Library.Tame` — what is expected of PAM: after a conversation that failed there is no other one, and
  the account management asks nothing.

Principal results: the session process keeps to the protocol with every such library (`greeting_keeps`,
`manageSession_keeps`), and where the greeter tags a name only in reply to the question for it, the user
for whom the client is started is the one that PAM has authenticated.
-/

namespace Kdm.Login

open Dialogue Verify Proc

inductive Kind
  | int
  | str
  | arr
  | argv
deriving DecidableEq

def Item.kind : Item → Kind
  | .int _ => .int
  | .str _ => .str
  | .arr _ => .arr
  | .argv _ => .argv

/-- Which commands are due: before `G_Greet`, before a login, behind one. -/
inductive Stage
  | setup
  | login
  | settled
deriving DecidableEq

/-- Whether an expired password is being changed: not at all, the user is authenticated for it, or the
new one is asked for. -/
inductive Change
  | none
  | auth
  | change
deriving DecidableEq

/-- What the next item is about.  In `verify` the session process has the word; `pw` tells that it has a
password of the user. -/
inductive Phase
  | command (st : Stage)
  | cfgType (st : Stage)
  | status (type : Code) (st : Stage)
  | verify (c : Change) (pw : Bool)
  | prompt (c : Change) (pw : Bool)
  | echo (p : Option Text) (c : Change) (pw : Bool)
  | ndelay (p : Option Text) (e : Code) (c : Change) (pw : Bool)
  | reply (p : Option Text) (e nd : Code) (c : Change) (pw : Bool)
  | tag (p : Option Text) (e : Code) (c : Change) (pw : Bool)
  | replyArr (c : Change) (pw : Bool)
  | rest (who : Side) (k : Kind) (ks : List Kind) (ph : Phase)
  | greet
  | final
  | over

/-- The password is known behind a reply to the question for it. -/
def afterTag (strict : Bool) (p : Option Text) (e : Code) (c : Change) (pw : Bool) (tag : Code) :
    Option Phase :=
  if p = Option.none then some (.verify c (pw || e == flag false))
  else if tagged tag V_IS_USER then
    if strict && p != some USER_PROMPT then Option.none else some (.verify c pw)
  else if tagged tag V_IS_PASSWORD then some (.verify c true)
  else if tagged tag V_IS_NEWPASSWORD then some (.verify c pw)
  else if tagged tag V_IS_OLDPASSWORD then if pw then some (.verify c pw) else Option.none
  else some (.verify c pw)

/-- The value of an entry, by the type in its id. -/
def afterStatus (type : Code) (st : Stage) (sts : Code) : Phase :=
  if sts ≠ GE_Ok then .command st
  else if type &&& C_TYPE_MASK = C_TYPE_INT then .rest .server .int [] (.command st)
  else if type &&& C_TYPE_MASK = C_TYPE_STR then .rest .server .str [] (.command st)
  else if type &&& C_TYPE_MASK = C_TYPE_ARGV then .rest .server .argv [] (.command st)
  else .rest .server .arr [] (.command st)

def afterCommand (st : Stage) (cmd : Code) : Option Phase :=
  if cmd = G_Ready then
    match st with
    | .setup => some .greet
    | .login => Option.none
    | .settled => some .final
  else if cmd = G_Interact then some (.command st)
  else if cmd = G_GetCfg then some (.cfgType st)
  else if cmd = G_SetupDpy then some (.rest .server .int [] (.command st))
  else if cmd = G_ReadDmrc then some (.rest .client .str [] (.rest .server .int [] (.command st)))
  else if cmd = G_GetDmrc then some (.rest .client .str [] (.rest .server .str [] (.command st)))
  else if cmd = G_PutDmrc then some (.rest .client .str [.str] (.command st))
  else if cmd = G_Verify ∧ st = .login then some (.rest .client .str [] (.verify .none false))
  else if cmd = G_AutoLogin ∧ st = .login then some (.verify .none true)
  else Option.none

/-- A message, and the reply to it. -/
def message (ph : Phase) : Phase := .rest .server .str [] (.rest .client .int [] ph)

def isMessage (v : Code) : Bool := v == V_MSG_INFO || v == V_MSG_ERR || v == V_MSG_INFO_AUTH

def afterVerify (c : Change) (pw : Bool) (v : Code) : Option Phase :=
  if v = V_GET_TEXT then some (.prompt c pw)
  else if v = V_GET_BINARY then some (.rest .server .arr [.int] (.replyArr c pw))
  else if isMessage v then some (message (.verify c pw))
  else if v = V_PUT_USER then some (.rest .server .str [] (.verify c pw))
  else if v = V_PRE_OK then if c = .auth then some (.verify .change pw) else Option.none
  else if v = V_CHTOK then if c = .none then some (.verify .change pw) else Option.none
  else if v = V_CHTOK_AUTH then if c = .none then some (.verify .auth pw) else Option.none
  else if v = V_OK then some (.command .settled)
  else if v = V_AUTH ∨ v = V_FAIL then
    match c with
    | .none => some (.command .login)
    | .auth => some (.verify .auth false)
    | .change => some (.verify .change pw)
  else Option.none

def afterFinal (v : Code) : Option Phase :=
  if isMessage v then some (message .final)
  else if v = V_OK then some .over
  else Option.none

def Phase.turn : Phase → Side
  | .command _ => .client
  | .cfgType _ => .client
  | .status _ _ => .server
  | .verify _ _ => .server
  | .prompt _ _ => .server
  | .echo _ _ _ => .server
  | .ndelay _ _ _ _ => .server
  | .reply _ _ _ _ _ => .client
  | .tag _ _ _ _ => .client
  | .replyArr _ _ => .client
  | .rest who _ _ _ => who
  | .greet => .server
  | .final => .server
  | .over => .server

/-- The items that are left. -/
def rests (who : Side) (ph : Phase) : List Kind → Phase
  | [] => ph
  | k :: ks => .rest who k ks ph

/-- What an item leads to; a reply that may not wait is not refused. -/
def Phase.next (strict : Bool) : Phase → Item → Option Phase
  | .command st, .int cmd => afterCommand st cmd
  | .cfgType st, .int type => some (.status type st)
  | .status type st, .int sts => some (afterStatus type st sts)
  | .verify c pw, .int v => afterVerify c pw v
  | .prompt c pw, .str p => some (.echo p c pw)
  | .echo p c pw, .int e => some (.ndelay p e c pw)
  | .ndelay p e c pw, .int nd => some (.reply p e nd c pw)
  | .reply p e _ c pw, .str (some _) => some (.tag p e c pw)
  | .reply _ _ nd _ _, .str none => if nd = flag false then some (.command .login) else Option.none
  | .tag p e c pw, .int t => afterTag strict p e c pw t
  | .replyArr c pw, .arr (some _) => some (.verify c pw)
  | .replyArr _ _, .arr none => some (.command .login)
  | .rest who k ks ph, i =>
    if i.kind = k then some (rests who ph ks) else Option.none
  | .greet, .int cmd => if cmd = G_Greet ∨ cmd = G_GreetTimed then some (.command .login) else Option.none
  | .final, .int v => afterFinal v
  | _, _ => Option.none

/-- The protocol; with `strict` a name is tagged only in reply to the question for it. -/
def greetProtocol (strict : Bool) : Protocol Phase Item where
  turn := Phase.turn
  next := Phase.next strict
  attended := (· = .client)

/-! ## What is expected of PAM -/

/-- A function does nothing but result in a code. -/
def Pam.Silent (p : Pam) : Prop := ∃ code, p = .ret code

/-- Behind a conversation that failed there is no other one, and no module asks in the words of PAM's
own question for the name. -/
inductive Pam.Tame : Pam → Prop
  | ret (code : PamCode) : Tame (.ret code)
  | conv {msgs : List Message} {k : Option (List (Option Text)) → Pam}
      (hown : ∀ m ∈ msgs, m.msg ≠ USER_PROMPT) (hnone : (k none).Silent)
      (hsome : ∀ l, Tame (k (some l))) : Tame (.conv msgs k)
  | user {k : Option Text → Pam} (hnone : (k none).Silent) (hsome : ∀ u, Tame (k (some u))) :
      Tame (.user k)

/-- A function asks nothing, it only displays messages. -/
inductive Pam.Displays : Pam → Prop
  | ret (code : PamCode) : Displays (.ret code)
  | conv {msgs : List Message} {k : Option (List (Option Text)) → Pam}
      (hmsg : ∀ m ∈ msgs, m.msg_style = .PAM_TEXT_INFO ∨ m.msg_style = .PAM_ERROR_MSG)
      (hk : ∀ r, Displays (k r)) : Displays (.conv msgs k)

structure Library.Tame (pam : Library) : Prop where
  authenticate : ∀ n, (pam.pam_authenticate n).Tame
  acct_mgmt : ∀ n, (pam.pam_acct_mgmt n).Displays
  chauthtok : ∀ n, (pam.pam_chauthtok n).Tame

/-! ## Single items -/

section Items

variable {ν ε : Type} {strict : Bool} {me : Side} {v : ν} {s s' ph : Phase}

theorem keeps_gSendInt {Q : Unit → ν → Option Phase → Prop} {x : Code} (s' : Phase)
    (ht : s.turn = me) (hn : s.next strict (.int x) = some s') (h : Q () v (some s')) :
    Keeps (greetProtocol strict) me Q (gSendInt x : Proc ν Item ε Unit) v (some s) :=
  keeps_send s' ht hn h

theorem keeps_gSendStr {Q : Unit → ν → Option Phase → Prop} {x : Option Text}
    (s' : Phase) (ht : s.turn = me) (hn : s.next strict (.str x) = some s') (h : Q () v (some s')) :
    Keeps (greetProtocol strict) me Q (gSendStr x : Proc ν Item ε Unit) v (some s) :=
  keeps_send s' ht hn h

/-- An item of the kind that is due. -/
theorem keeps_send_rest {Q : Unit → ν → Option Phase → Prop} {i : Item} (h : Q () v (some ph)) :
    Keeps (greetProtocol strict) me Q (send i : Proc ν Item ε Unit) v
      (some (.rest me i.kind [] ph)) := by
  refine keeps_send (P := greetProtocol strict) ph rfl ?_ h
  simp [greetProtocol, Phase.next, rests]

theorem keeps_gRecvInt {Q : Code → ν → Option Phase → Prop} (ht : s.turn = me.other)
    (h : ∀ i s', s.next strict i = some s' → ∃ x, i = .int x ∧ Q x v (some s')) :
    Keeps (greetProtocol strict) me Q (gRecvInt : Proc ν Item ε Code) v (some s) := by
  refine keeps_receive (P := greetProtocol strict) ?_ ?_ (by simp)
  · simp [greetProtocol, ht]
  · intro i s' hn
    obtain ⟨x, rfl, hq⟩ := h i s' hn
    exact ⟨x, rfl, hq⟩

theorem keeps_gRecvStr {Q : Option Text → ν → Option Phase → Prop} (ht : s.turn = me.other)
    (h : ∀ i s', s.next strict i = some s' → ∃ x, i = .str x ∧ Q x v (some s')) :
    Keeps (greetProtocol strict) me Q (gRecvStr : Proc ν Item ε (Option Text)) v (some s) := by
  refine keeps_receive (P := greetProtocol strict) ?_ ?_ (by simp)
  · simp [greetProtocol, ht]
  · intro i s' hn
    obtain ⟨x, rfl, hq⟩ := h i s' hn
    exact ⟨x, rfl, hq⟩

theorem keeps_gRecvArr {Q : Option Text → ν → Option Phase → Prop} (ht : s.turn = me.other)
    (h : ∀ i s', s.next strict i = some s' → ∃ x, i = .arr x ∧ Q x v (some s')) :
    Keeps (greetProtocol strict) me Q (gRecvArr : Proc ν Item ε (Option Text)) v (some s) := by
  refine keeps_receive (P := greetProtocol strict) ?_ ?_ (by simp)
  · simp [greetProtocol, ht]
  · intro i s' hn
    obtain ⟨x, rfl, hq⟩ := h i s' hn
    exact ⟨x, rfl, hq⟩

theorem keeps_gRecvArgv {Q : Option (List Text) → ν → Option Phase → Prop}
    (ht : s.turn = me.other)
    (h : ∀ i s', s.next strict i = some s' → ∃ x, i = .argv x ∧ Q x v (some s')) :
    Keeps (greetProtocol strict) me Q (gRecvArgv : Proc ν Item ε (Option (List Text))) v
      (some s) := by
  refine keeps_receive (P := greetProtocol strict) ?_ ?_ (by simp)
  · simp [greetProtocol, ht]
  · intro i s' hn
    obtain ⟨x, rfl, hq⟩ := h i s' hn
    exact ⟨x, rfl, hq⟩

/-- The item that is due is read. -/
theorem next_rest {who : Side} {k : Kind} {ks : List Kind} {i : Item}
    (hn : (Phase.rest who k ks ph).next strict i = some s') : i.kind = k ∧ s' = rests who ph ks := by
  simp only [Phase.next] at hn
  split at hn
  · exact ⟨‹_›, (Option.some.inj hn).symm⟩
  · cases hn

theorem eq_int_of_kind {i : Item} (h : i.kind = .int) : ∃ x, i = .int x := by
  cases i with
  | int x => exact ⟨x, rfl⟩
  | str _ => cases h
  | arr _ => cases h
  | argv _ => cases h

theorem eq_str_of_kind {i : Item} (h : i.kind = .str) : ∃ x, i = .str x := by
  cases i with
  | str x => exact ⟨x, rfl⟩
  | int _ => cases h
  | arr _ => cases h
  | argv _ => cases h

theorem eq_arr_of_kind {i : Item} (h : i.kind = .arr) : ∃ x, i = .arr x := by
  cases i with
  | arr x => exact ⟨x, rfl⟩
  | int _ => cases h
  | str _ => cases h
  | argv _ => cases h

theorem eq_argv_of_kind {i : Item} (h : i.kind = .argv) : ∃ x, i = .argv x := by
  cases i with
  | argv x => exact ⟨x, rfl⟩
  | int _ => cases h
  | str _ => cases h
  | arr _ => cases h

theorem keeps_gRecvInt_rest (me : Side) {Q : Code → ν → Option Phase → Prop}
    (h : ∀ x, Q x v (some ph)) :
    Keeps (greetProtocol strict) me Q (gRecvInt : Proc ν Item ε Code) v
      (some (.rest me.other .int [] ph)) := by
  refine keeps_gRecvInt rfl fun i s' hn => ?_
  obtain ⟨hk, rfl⟩ := next_rest hn
  obtain ⟨x, rfl⟩ := eq_int_of_kind hk
  exact ⟨x, rfl, h x⟩

theorem keeps_gRecvStr_rest (me : Side) {Q : Option Text → ν → Option Phase → Prop}
    (h : ∀ x, Q x v (some ph)) : Keeps (greetProtocol strict) me Q
      (gRecvStr : Proc ν Item ε (Option Text)) v (some (.rest me.other .str [] ph)) := by
  refine keeps_gRecvStr rfl fun i s' hn => ?_
  obtain ⟨hk, rfl⟩ := next_rest hn
  obtain ⟨x, rfl⟩ := eq_str_of_kind hk
  exact ⟨x, rfl, h x⟩

theorem keeps_gRecvArgv_rest (me : Side) {Q : Option (List Text) → ν → Option Phase → Prop}
    (h : ∀ x, Q x v (some ph)) : Keeps (greetProtocol strict) me Q
      (gRecvArgv : Proc ν Item ε (Option (List Text))) v (some (.rest me.other .argv [] ph)) := by
  refine keeps_gRecvArgv rfl fun i s' hn => ?_
  obtain ⟨hk, rfl⟩ := next_rest hn
  obtain ⟨x, rfl⟩ := eq_argv_of_kind hk
  exact ⟨x, rfl, h x⟩

end Items

/-- A message is displayed and acknowledged. -/
theorem keeps_displayStr {ε : Type} {strict : Bool} {v : Vars} {s ph : Phase}
    {Q : Unit → Vars → Option Phase → Prop} {lv : Code} {msg : Option Text}
    (ht : s.turn = .server) (hn : s.next strict (.int lv) = some (message ph))
    (h : Q () v (some ph)) :
    Keeps (greetProtocol strict) .server Q (displayStr lv msg : Session ε Unit) v (some s) := by
  refine Keeps.bind (keeps_gSendInt _ ht hn ?_)
  refine Keeps.bind (keeps_send_rest (i := .str msg) ?_)
  refine Keeps.bind (keeps_gRecvInt_rest .server fun x => ?_)
  exact h

end Kdm.Login
