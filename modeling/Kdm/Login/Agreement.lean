import Kdm.Login.Conversation
import Kdm.Login.Greeter

/-!
# Both ends of the login conversation

The greeter keeps to the protocol as well, provided that its plugin and its user do what the source
expects of them.

* `KG.Permits` — when an event may come: what the comments and assertions of `kgverify.cpp` and
  `kgapp.cpp` take for granted, and that a plugin replies to what it has been asked.
* `Sound` — the state of the greeter fits the phase of the protocol.

Principal results: neither the session process nor the greeter ever reads an item of another kind than
the one that was sent for it, whatever the order of their steps and whoever of them dies; when both wait
the greeter waits for its user; and the client is started for a user whom PAM has authenticated.
-/

namespace Kdm.Login

open Dialogue Verify Proc

/-! ## What is expected of the plugin and the user -/

/-- What the plugin has been asked may be refused. -/
def KG.Refusable (g : KG) : Prop := ∀ p e nd, g.prompt = some (.text p e nd) → nd = flag false

/-- Without a question pending the session process waits for a command: always in the dialog for the
login, otherwise behind a refusal. -/
def KG.Commanding (g : KG) : Prop := g.func = .Authenticate ∨ g.gaveUp = true

/-- The tag of a reply: with `strict` a name is given only to the question for it, and the old password
is pointed at only if it has been given. -/
def KG.Tags (strict : Bool) (g : KG) (prompt : Text) (tag : Code) : Prop :=
  (tagged tag V_IS_USER = true → strict = true → prompt = USER_PROMPT) ∧
  (tagged tag V_IS_USER = false → tagged tag V_IS_PASSWORD = false →
    tagged tag V_IS_NEWPASSWORD = false → tagged tag V_IS_OLDPASSWORD = true → g.knows = true)

/-- The dialog may be cleared; `assert(coreState != CoreBusy)`. -/
structure KG.Clearable (g : KG) : Prop where
  func : g.func = .Authenticate
  notBusy : g.coreState ≠ .CoreBusy
  refusable : g.Refusable
  running : g.prompt ≠ none → g.running = true

/-- When an event may come.  There is no asynchronous communication before the first interaction; the
verification is started for a login only (`XXX handle func != Authenticate`). -/
def KG.Permits (strict : Bool) (g : KG) : Event → Prop
  | .interact => g.sendInteract = true → g.coreState = .CoreIdle ∧ g.Commanding
  | .activity => True
  | .start => g.running = true ∧ (g.coreState = .CoreIdle → g.func = .Authenticate)
  | .returnText none _ => (∃ p e nd, g.prompt = some (.text p e nd)) ∧ g.Refusable
  | .returnText (some _) tag => ∃ p e nd, g.prompt = some (.text p e nd) ∧
      ∀ s, p = some s → g.Tags strict s tag
  | .returnBinary _ => g.prompt = some .binary
  | .setUser _ => g.coreState = .CoreIdle → g.Commanding
  | .load => g.coreState = .CoreIdle → g.Commanding
  | .select _ => True
  | .edit => True
  | .autoLogin => g.timed = true
  | .reject => g.Clearable
  | .reset => g.Clearable
  | .retry => True
  | .exit => g.Refusable
  | .cancel => g.func ≠ .Authenticate ∧ g.Refusable ∧
      (g.prompt = none → g.coreState = .CoreIdle ∧ g.gaveUp = true)

def Ui.Polite (strict : Bool) (ui : Ui) : Prop := ∀ g e, ui.allowed g e = true → g.Permits strict e

/-! ## The state of the greeter and the phase -/

/-- Which password the dialog is about. -/
def KG.change (g : KG) : Change :=
  if g.func = .Authenticate then .none else if g.authTok then .change else .auth

/-- The greeter and the session process agree on what comes next. -/
inductive InTouch (g : KG) : Phase → Prop
  | idle (hs : g.coreState = .CoreIdle) (hp : g.prompt = none) (hc : g.Commanding) :
      InTouch g (.command .login)
  | busy {c : Change} {pw : Bool} (hs : g.coreState = .CoreBusy) (hp : g.prompt = none)
      (hc : g.change = c) (hk : g.knows = true → pw = true) : InTouch g (.verify c pw)
  | refused {c : Change} {pw : Bool} (hs : g.coreState = .CoreIdle) (hp : g.prompt = none)
      (hn : ¬ g.Commanding) (hc : g.change = c) (hk : g.knows = true → pw = true) :
      InTouch g (.verify c pw)
  | text {p : Option Text} {e nd : Code} {c : Change} {pw : Bool}
      (hs : g.coreState = .CorePrompting) (hp : g.prompt = some (.text p e nd)) (hc : g.change = c)
      (hk : g.knows = true → pw = true) : InTouch g (.reply p e nd c pw)
  | binary {c : Change} {pw : Bool} (hs : g.coreState = .CorePrompting)
      (hp : g.prompt = some .binary) (hc : g.change = c) (hk : g.knows = true → pw = true) :
      InTouch g (.replyArr c pw)

/-- A countdown runs only in an idle dialog for a login. -/
structure Sound (f : Func) (g : KG) (ph : Phase) : Prop where
  touch : InTouch g ph
  func : g.func = f
  timed : g.timed = true → f = .Authenticate ∧ g.coreState = .CoreIdle ∧ g.running = false

/-- A dialog is through: accepted, or, if it is about an expired password, cancelled. -/
def Done (f : Func) (ok : Bool) (g : KG) (o : Option Phase) : Prop :=
  g.func = f ∧ match ok with
    | true => o = some (.command .settled)
    | false => f ≠ .Authenticate ∧ o = some (.command .login)

/-- The dialog goes on, or is through. -/
def Went (f : Func) (r : Option Bool) (g : KG) (o : Option Phase) : Prop :=
  match r with
  | none => ∃ ph, o = some ph ∧ Sound f g ph
  | some ok => Done f ok g o

variable {strict : Bool} {ui : Ui} {f : Func} {g : KG} {ph : Phase} {c : Change} {pw : Bool}
  {st : Stage} {o : Option Phase}

theorem KG.change_authenticate (h : g.func = .Authenticate) : g.change = .none := if_pos h

theorem KG.change_none (h : g.change = .none) : g.func = .Authenticate := by
  unfold KG.change at h
  split at h
  · assumption
  · split at h
    · cases h
    · cases h

theorem KG.change_auth (h : g.change = .auth) : g.authTok = false := by
  unfold KG.change at h
  split at h
  · cases h
  · split at h
    · cases h
    · simpa using ‹¬ g.authTok = true›

/-- In an idle dialog that gives commands the session process waits for one. -/
theorem InTouch.command (h : InTouch g ph) (hs : g.coreState = .CoreIdle) (hc : g.Commanding) :
    ph = .command .login ∧ g.prompt = none := by
  cases h with
  | idle _ hp _ => exact ⟨rfl, hp⟩
  | busy hs' => rw [hs] at hs'; cases hs'
  | refused _ _ hn => exact absurd hc hn
  | text hs' => rw [hs] at hs'; cases hs'
  | binary hs' => rw [hs] at hs'; cases hs'

/-- The greeter reads only what `verify` has to say. -/
theorem InTouch.verify (h : InTouch g ph) (ht : ph.turn ≠ .client) :
    ∃ c pw, ph = .verify c pw ∧ g.prompt = none ∧ g.change = c ∧ (g.knows = true → pw = true) ∧
      (g.coreState = .CoreIdle → g.func ≠ .Authenticate) := by
  cases h with
  | idle => exact absurd rfl ht
  | @busy c pw hs hp hc hk =>
    refine ⟨c, pw, rfl, hp, hc, hk, fun hi => ?_⟩
    rw [hs] at hi
    cases hi
  | @refused c pw hs hp hn hc hk => exact ⟨c, pw, rfl, hp, hc, hk, fun _ hf => hn (Or.inl hf)⟩
  | text => exact absurd rfl ht
  | binary => exact absurd rfl ht

theorem InTouch.asked {p : Option Text} {e nd : Code} (h : InTouch g ph)
    (hp : g.prompt = some (.text p e nd)) :
    ∃ pw, ph = .reply p e nd g.change pw ∧ (g.knows = true → pw = true) := by
  cases h with
  | idle _ hp' => rw [hp] at hp'; cases hp'
  | busy _ hp' => rw [hp] at hp'; cases hp'
  | refused _ hp' => rw [hp] at hp'; cases hp'
  | @text _ _ _ _ pw _ hp' hc hk =>
    rw [hp] at hp'
    cases hp'
    exact ⟨pw, hc ▸ rfl, hk⟩
  | binary _ hp' => rw [hp] at hp'; cases hp'

theorem InTouch.askedBinary (h : InTouch g ph) (hp : g.prompt = some .binary) :
    ∃ pw, ph = .replyArr g.change pw ∧ (g.knows = true → pw = true) := by
  cases h with
  | idle _ hp' => rw [hp] at hp'; cases hp'
  | busy _ hp' => rw [hp] at hp'; cases hp'
  | refused _ hp' => rw [hp] at hp'; cases hp'
  | text _ hp' => rw [hp] at hp'; cases hp'
  | @binary _ pw _ _ hc hk => exact ⟨pw, hc ▸ rfl, hk⟩

/-- No countdown runs while the session process has the word, or waits for a reply. -/
theorem Sound.not_timed (h : Sound f g ph) (hs : g.coreState ≠ .CoreIdle) : g.timed = false := by
  cases ht : g.timed with
  | false => rfl
  | true => exact absurd (h.timed ht).2.1 hs

/-! ## `KGreeter` -/

theorem keeps_slotLoadPrevWM {Q : Unit → KG → Option Phase → Prop} (hs : g.coreState = .CoreIdle)
    (h : ∀ b, Q () { g with needLoad := false, prevValid := b } (some (.command st))) :
    Keeps (greetProtocol strict) .client Q (slotLoadPrevWM ui) g (some (.command st)) := by
  unfold slotLoadPrevWM
  simp only [keeps_vars_bind]
  rw [if_neg (by simp [hs])]
  simp only [keeps_assign_bind]
  refine Keeps.bind (keeps_gSendInt
    (.rest .client .str [] (.rest .server .int [] (.command st))) rfl rfl ?_)
  refine Keeps.bind (keeps_send_rest (i := .str (some g.curUser)) ?_)
  refine Keeps.bind (keeps_gRecvInt_rest .client fun sts => ?_)
  split
  · refine Keeps.bind (keeps_gSendInt
      (.rest .client .str [] (.rest .server .str [] (.command st))) rfl rfl ?_)
    refine Keeps.bind (keeps_send_rest (i := .str (some SESSION)) ?_)
    refine Keeps.bind (keeps_gRecvStr_rest .client fun sess => ?_)
    cases sess with
    | none => exact h (true && ui.userShown)
    | some sess => exact h (true && ui.sessionTypes.contains sess)
  · exact h true

theorem keeps_slotUserEntered {Q : Unit → KG → Option Phase → Prop} {user : Text}
    (hs : g.coreState = .CoreIdle)
    (h : ∀ b, Q () { g with curUser := user, needLoad := false, prevValid := b }
      (some (.command st))) :
    Keeps (greetProtocol strict) .client Q (slotUserEntered ui user) g (some (.command st)) := by
  unfold slotUserEntered
  simp only [keeps_assign_bind]
  exact keeps_slotLoadPrevWM hs h

/-- Outside of the idle state nothing is loaded. -/
theorem keeps_slotUserEntered_later {Q : Unit → KG → Option Phase → Prop} {user : Text}
    (hs : g.coreState ≠ .CoreIdle)
    (h : Q () { g with curUser := user, needLoad := true } o) :
    Keeps (greetProtocol strict) .client Q (slotUserEntered ui user) g o := by
  unfold slotUserEntered slotLoadPrevWM
  simp only [keeps_assign_bind, keeps_vars_bind]
  rw [if_pos hs]
  exact h

theorem keeps_putSession {Q : Unit → KG → Option Phase → Prop} {type : Text}
    (h : Q () g (some (.command st))) :
    Keeps (greetProtocol strict) .client Q (putSession type) g (some (.command st)) := by
  unfold putSession
  refine Keeps.bind (keeps_gSendInt (.rest .client .str [.str] (.command st)) rfl rfl ?_)
  refine Keeps.bind (keeps_gSendStr (.rest .client .str [] (.command st)) rfl rfl ?_)
  exact keeps_send_rest (i := .str (some type)) h

theorem keeps_verifyOk {Q : Unit → KG → Option Phase → Prop} (h : Q () g (some (.command st))) :
    Keeps (greetProtocol strict) .client Q verifyOk g (some (.command st)) := by
  unfold verifyOk
  simp only [keeps_vars_bind]
  cases g.curSel with
  | some type => exact keeps_putSession h
  | none =>
    dsimp only
    split
    · exact keeps_putSession h
    · exact h

/-! ## The plugin -/

/-- A refusal. -/
def KG.giveUp (g : KG) : KG := { g with coreState := .CoreIdle, prompt := none, gaveUp := true }

theorem keeps_refuse_text {Q : Unit → KG → Option Phase → Prop} {p : Option Text} {e nd tag : Code}
    (hn : nd = flag false) (h : Q () g.giveUp (some (.command .login))) :
    Keeps (greetProtocol strict) .client Q (gplugReturnText none tag) g
      (some (.reply p e nd c pw)) := by
  unfold gplugReturnText
  refine Keeps.bind (keeps_gSendStr (.command .login) rfl ?_ h)
  rw [hn]
  rfl

theorem keeps_refuse_binary {Q : Unit → KG → Option Phase → Prop}
    (h : Q () g.giveUp (some (.command .login))) :
    Keeps (greetProtocol strict) .client Q (gplugReturnBinary none) g
      (some (.replyArr c pw)) := by
  unfold gplugReturnBinary
  exact Keeps.bind (keeps_send (P := greetProtocol strict) (.command .login) rfl rfl h)

/-- What the plugin has been asked is refused, if it has been asked. -/
theorem keeps_abort {Q : Unit → KG → Option Phase → Prop} (h : InTouch g ph) (hr : g.Refusable)
    (hnone : g.prompt = none → Q () g (some ph))
    (hsome : g.prompt ≠ none → Q () g.giveUp (some (.command .login))) :
    Keeps (greetProtocol strict) .client Q abort g (some ph) := by
  unfold abort
  simp only [keeps_vars_bind]
  cases hp : g.prompt with
  | none => exact hnone hp
  | some prompt =>
    have hq := hsome (by rw [hp]; exact Option.some_ne_none _)
    cases prompt with
    | text p e nd =>
      obtain ⟨pw, rfl, -⟩ := h.asked hp
      exact keeps_refuse_text (hr p e nd hp) hq
    | binary =>
      obtain ⟨pw, rfl, -⟩ := h.askedBinary hp
      exact keeps_refuse_binary hq

/-- A tag that fits is one of the protocol, and the password that the plugin then has given is known. -/
theorem afterTag_of_tags {p : Option Text} {e tag : Code} (nd : Code)
    (ht : ∀ s, p = some s → g.Tags strict s tag) (hk : g.knows = true → pw = true) :
    ∃ pw', afterTag strict p e c pw tag = some (.verify c pw') ∧
      ((g.knows || givesPassword (some (.text p e nd)) tag) = true → pw' = true) := by
  unfold afterTag givesPassword
  cases p with
  | none =>
    refine ⟨_, if_pos rfl, fun h => ?_⟩
    rw [Bool.or_eq_true] at h ⊢
    exact h.imp_left hk
  | some s =>
    obtain ⟨huser, hold⟩ := ht s rfl
    rw [if_neg (by simp)]
    dsimp only
    cases hu : tagged tag V_IS_USER with
    | true =>
      refine ⟨pw, ?_, by simpa using hk⟩
      rw [if_pos rfl, if_neg]
      intro hs
      rw [Bool.and_eq_true] at hs
      rw [huser hu hs.1] at hs
      exact absurd hs.2 (by simp)
    | false =>
      cases hp : tagged tag V_IS_PASSWORD with
      | true => exact ⟨true, by simp, fun _ => rfl⟩
      | false =>
        have hkeep : ((g.knows || (!false && false)) = true → pw = true) := by simpa using hk
        cases hn : tagged tag V_IS_NEWPASSWORD with
        | true => exact ⟨pw, by simp, hkeep⟩
        | false =>
          cases ho : tagged tag V_IS_OLDPASSWORD with
          | true => exact ⟨pw, by simp [hk (hold hu hp hn ho)], hkeep⟩
          | false => exact ⟨pw, by simp, hkeep⟩

/-! ## Events -/

/-- A refusal leaves an idle dialog that may give commands. -/
theorem Sound.giveUp (h : Sound f g ph) : Sound f g.giveUp (.command .login) := by
  refine ⟨.idle rfl rfl (Or.inr rfl), h.func, fun ht => ?_⟩
  exact ⟨(h.timed ht).1, rfl, (h.timed ht).2.2⟩

/-- What the state of an idle dialog hangs on. -/
theorem Sound.idle (hf : g.func = f) (hs : g.coreState = .CoreIdle) (hp : g.prompt = none)
    (hc : g.Commanding) (ht : g.timed = true → f = .Authenticate ∧ g.running = false) :
    Sound f g (.command .login) :=
  ⟨.idle hs hp hc, hf, fun h => ⟨(ht h).1, hs, (ht h).2⟩⟩

/-- Variables that play no part change. -/
theorem Sound.same {g' : KG} (h : Sound f g ph) (hs : g'.coreState = g.coreState)
    (hp : g'.prompt = g.prompt) (hf : g'.func = g.func) (ha : g'.authTok = g.authTok)
    (hg : g'.gaveUp = g.gaveUp) (hk : g'.knows = g.knows)
    (ht : g'.timed = true → f = .Authenticate ∧ g'.coreState = .CoreIdle ∧ g'.running = false) :
    Sound f g' ph := by
  have hc : g'.change = g.change := by unfold KG.change; rw [hf, ha]
  have hcom : g'.Commanding ↔ g.Commanding := by unfold KG.Commanding; rw [hf, hg]
  refine ⟨?_, hf.trans h.func, ht⟩
  cases h.touch with
  | idle hs' hp' hc' => exact .idle (hs.trans hs') (hp.trans hp') (hcom.mpr hc')
  | busy hs' hp' hc' hk' => exact .busy (hs.trans hs') (hp.trans hp') (hc.trans hc') (hk ▸ hk')
  | refused hs' hp' hn hc' hk' =>
    exact .refused (hs.trans hs') (hp.trans hp') (mt hcom.mp hn) (hc.trans hc') (hk ▸ hk')
  | text hs' hp' hc' hk' => exact .text (hs.trans hs') (hp.trans hp') (hc.trans hc') (hk ▸ hk')
  | binary hs' hp' hc' hk' => exact .binary (hs.trans hs') (hp.trans hp') (hc.trans hc') (hk ▸ hk')

/-- The event does not end the dialog. -/
theorem went_on (h : Sound f g ph) : Went f none g (some ph) := ⟨ph, rfl, h⟩

/-- A name is entered. -/
theorem keeps_setUser {user : Text} (h : Sound f g ph)
    (hc : g.coreState = .CoreIdle → g.Commanding) :
    Keeps (greetProtocol strict) .client (fun _ g o => Went f none g o) (slotUserEntered ui user) g
      (some ph) := by
  by_cases hs : g.coreState = .CoreIdle
  · obtain ⟨rfl, -⟩ := h.touch.command hs (hc hs)
    exact keeps_slotUserEntered hs fun b => went_on (h.same rfl rfl rfl rfl rfl rfl h.timed)
  · exact keeps_slotUserEntered_later hs (went_on (h.same rfl rfl rfl rfl rfl rfl h.timed))

theorem keeps_load (h : Sound f g ph) (hc : g.coreState = .CoreIdle → g.Commanding) :
    Keeps (greetProtocol strict) .client (fun _ g o => Went f none g o) (slotLoadPrevWM ui) g
      (some ph) := by
  by_cases hs : g.coreState = .CoreIdle
  · obtain ⟨rfl, -⟩ := h.touch.command hs (hc hs)
    exact keeps_slotLoadPrevWM hs fun b => went_on (h.same rfl rfl rfl rfl rfl rfl h.timed)
  · unfold slotLoadPrevWM
    simp only [keeps_vars_bind]
    rw [if_pos hs]
    exact went_on (h.same rfl rfl rfl rfl rfl rfl h.timed)

theorem keeps_gplugStart (h : Sound f g ph) (hr : g.running = true)
    (hf : g.coreState = .CoreIdle → g.func = .Authenticate) :
    Keeps (greetProtocol strict) .client (fun _ g o => Went f none g o) (gplugStart ui) g
      (some ph) := by
  have ht : g.timed = false := by
    cases ht : g.timed with
    | false => rfl
    | true => rw [(h.timed ht).2.2] at hr; cases hr
  unfold gplugStart
  simp only [keeps_vars_bind]
  split
  · rename_i hs
    obtain ⟨rfl, hp⟩ := h.touch.command hs (Or.inl (hf hs))
    refine Keeps.bind (keeps_gSendInt (.rest .client .str [] (.verify .none false)) rfl rfl ?_)
    refine Keeps.bind (keeps_send_rest (i := .str (some ui.method)) ?_)
    refine went_on ⟨.busy rfl hp (KG.change_authenticate (hf hs)) (fun h => by cases h), h.func, fun htimed => ?_⟩
    exact absurd (ht.symm.trans htimed) (fun h => by cases h)
  · exact went_on h

theorem keeps_returnText {text : Option Text} {tag : Code} (h : Sound f g ph)
    (hp : g.Permits strict (.returnText text tag)) :
    Keeps (greetProtocol strict) .client (fun _ g o => Went f none g o) (gplugReturnText text tag) g
      (some ph) := by
  cases text with
  | none =>
    obtain ⟨⟨p, e, nd, hprompt⟩, hr⟩ := hp
    obtain ⟨pw, rfl, -⟩ := h.touch.asked hprompt
    exact keeps_refuse_text (hr p e nd hprompt) (went_on h.giveUp)
  | some text =>
    obtain ⟨p, e, nd, hprompt, htag⟩ := hp
    obtain ⟨pw, rfl, hk⟩ := h.touch.asked hprompt
    obtain ⟨pw', hafter, hk'⟩ := afterTag_of_tags (c := g.change) (e := e) nd htag hk
    have hs : g.coreState ≠ .CoreIdle := by
      intro hs
      cases h.touch with
      | text hs' => rw [hs] at hs'; cases hs'
    unfold gplugReturnText
    refine Keeps.bind (keeps_gSendStr (.tag p e g.change pw) rfl rfl ?_)
    refine Keeps.bind (keeps_gSendInt (.verify g.change pw') rfl hafter ?_)
    refine went_on ⟨.busy rfl rfl rfl ?_, h.func, fun ht => ?_⟩
    · rw [← hprompt] at hk'
      exact hk'
    · exact absurd ((h.not_timed hs).symm.trans ht) nofun

theorem keeps_returnBinary {data : Option Text} (h : Sound f g ph)
    (hp : g.prompt = some .binary) :
    Keeps (greetProtocol strict) .client (fun _ g o => Went f none g o) (gplugReturnBinary data) g
      (some ph) := by
  obtain ⟨pw, rfl, hk⟩ := h.touch.askedBinary hp
  cases data with
  | none => exact keeps_refuse_binary (went_on h.giveUp)
  | some data =>
    have hs : g.coreState ≠ .CoreIdle := by
      intro hs
      cases h.touch with
      | binary hs' => rw [hs] at hs'; cases hs'
    unfold gplugReturnBinary
    refine Keeps.bind (keeps_send (P := greetProtocol strict) (.verify g.change pw) rfl rfl ?_)
    refine went_on ⟨.busy rfl rfl rfl hk, h.func, fun ht => ?_⟩
    exact absurd ((h.not_timed hs).symm.trans ht) nofun

theorem keeps_performAutoLogin (h : Sound f g ph) (ht : g.timed = true) :
    Keeps (greetProtocol strict) .client (fun _ g o => Went f none g o) performAutoLogin g
      (some ph) := by
  obtain ⟨hf, hs, -⟩ := h.timed ht
  have hauth := h.func.trans hf
  obtain ⟨rfl, hp⟩ := h.touch.command hs (Or.inl hauth)
  unfold performAutoLogin
  refine Keeps.bind (keeps_gSendInt (.verify .none true) rfl rfl ?_)
  exact went_on ⟨.busy rfl hp (KG.change_authenticate hauth) nofun, h.func, nofun⟩

theorem keeps_clear (hf : g.func = f) (hauth : f = .Authenticate) (hs : g.coreState = .CoreIdle)
    (hp : g.prompt = none) (ht : g.timed = true → g.running = false) :
    Keeps (greetProtocol strict) .client (fun _ g o => Went f none g o) (clear ui) g
      (some (.command .login)) := by
  have hc : g.func = .Authenticate := hf.trans hauth
  unfold clear
  refine Keeps.bind (keeps_slotUserEntered hs fun b => ?_)
  simp only [keeps_assign_bind, keeps_vars_bind]
  split
  · unfold scheduleAutoLogin
    simp only [keeps_assign_bind]
    refine keeps_slotUserEntered hs fun b => ?_
    exact went_on (.idle hf hs hp (Or.inl hc) fun _ => ⟨hauth, rfl⟩)
  · split
    · simp only [keeps_assign_bind]
      refine keeps_slotUserEntered hs fun b => ?_
      exact went_on (.idle hf hs hp (Or.inl hc) fun h => ⟨hauth, ht h⟩)
    · exact went_on (.idle hf hs hp (Or.inl hc) fun h => ⟨hauth, ht h⟩)

/-- The dialog is cleared, whatever it has been asked. -/
theorem keeps_doReject (h : Sound f g ph) (hc : g.Clearable) :
    Keeps (greetProtocol strict) .client (fun _ g o => Went f none g o) (doReject ui) g
      (some ph) := by
  have hauth : f = .Authenticate := h.func.symm.trans hc.func
  have hrunning : ∀ g' : KG, g'.timed = g.timed → g'.running = g.running → g'.timed = true →
      g'.running = false := fun g' ht hr htrue => hr.trans (h.timed (ht.symm.trans htrue)).2.2
  have hnone : g.prompt = none → Keeps (greetProtocol strict) .client
      (fun _ g o => Went f none g o) (clear ui) g (some ph) := by
    intro hp
    have hs : g.coreState = .CoreIdle := by
      cases h.touch with
      | idle hs => exact hs
      | busy hs => exact absurd hs hc.notBusy
      | refused hs => exact hs
      | text _ hp' => rw [hp] at hp'; cases hp'
      | binary _ hp' => rw [hp] at hp'; cases hp'
    obtain ⟨rfl, -⟩ := h.touch.command hs (Or.inl hc.func)
    exact keeps_clear h.func hauth hs hp (hrunning g rfl rfl)
  unfold doReject
  simp only [keeps_vars_bind]
  split
  · refine Keeps.bind (keeps_abort h.touch hc.refusable hnone fun _ => ?_)
    exact keeps_clear h.func hauth rfl rfl (hrunning g.giveUp rfl rfl)
  · rename_i hr
    refine hnone ?_
    by_contra hp
    exact hr (hc.running hp)

/-- An event that does not end the dialog. -/
theorem keeps_event {act : Greet Unit} (h : Keeps (greetProtocol strict) .client
      (fun _ g o => Went f none g o) act g (some ph)) :
    Keeps (greetProtocol strict) .client (Went f) (act >>= fun _ => pure none) g (some ph) :=
  Keeps.bind h

/-- An event that is permitted keeps the two ends in touch. -/
theorem keeps_userEvent {e : Event} (h : Sound f g ph) (hp : g.Permits strict e) :
    Keeps (greetProtocol strict) .client (Went f) (userEvent ui e) g (some ph) := by
  cases e with
  | interact =>
    unfold userEvent
    simp only [keeps_vars_bind]
    split
    · rename_i hi
      obtain ⟨hs, hc⟩ := hp hi
      obtain ⟨rfl, -⟩ := h.touch.command hs hc
      simp only [keeps_assign_bind]
      refine Keeps.bind (keeps_gSendInt (.command .login) rfl rfl ?_)
      exact went_on (h.same rfl rfl rfl rfl rfl rfl h.timed)
    · exact went_on h
  | activity =>
    unfold userEvent
    simp only [keeps_assign_bind]
    split
    · exact went_on (h.same rfl rfl rfl rfl rfl rfl (fun h => by cases h))
    · exact went_on h
  | start => exact keeps_event (keeps_gplugStart h hp.1 hp.2)
  | returnText text tag => exact keeps_event (keeps_returnText h hp)
  | returnBinary data => exact keeps_event (keeps_returnBinary h hp)
  | setUser user => exact keeps_event (keeps_setUser h hp)
  | load => exact keeps_event (keeps_load h hp)
  | select type => exact went_on (h.same rfl rfl rfl rfl rfl rfl h.timed)
  | edit => exact went_on (h.same rfl rfl rfl rfl rfl rfl h.timed)
  | autoLogin => exact keeps_event (keeps_performAutoLogin h hp)
  | reject => exact keeps_event (keeps_doReject h hp)
  | reset =>
    refine keeps_event (keeps_doReject ?_ ⟨hp.func, hp.notBusy, hp.refusable, hp.running⟩)
    exact h.same rfl rfl rfl rfl rfl rfl h.timed
  | retry => exact went_on (h.same rfl rfl rfl rfl rfl rfl (fun h => by cases h))
  | exit =>
    refine Keeps.bind (keeps_abort h.touch hp (fun _ => ?_) fun _ => ?_)
    · exact keeps_quit
    · exact keeps_quit
  | cancel =>
    obtain ⟨hf, hr, hidle⟩ := hp
    have hfunc : f ≠ .Authenticate := h.func ▸ hf
    refine Keeps.bind (keeps_abort h.touch hr (fun hp => ?_) fun _ => ?_)
    · obtain ⟨hs, hg⟩ := hidle hp
      obtain ⟨rfl, -⟩ := h.touch.command hs (Or.inr hg)
      exact ⟨h.func, hfunc, rfl⟩
    · exact ⟨h.func, hfunc, rfl⟩

/-! ## What `verify` has to say -/

/-- The codes of `verify`, and what they lead to. -/
theorem afterVerify_cases {ret : Code} (h : afterVerify c pw ret = some ph) :
    (ret = V_GET_TEXT ∧ ph = .prompt c pw) ∨
    (ret = V_GET_BINARY ∧ ph = .rest .server .arr [.int] (.replyArr c pw)) ∨
    ((ret = V_MSG_ERR ∨ ret = V_MSG_INFO_AUTH ∨ ret = V_MSG_INFO) ∧ ph = message (.verify c pw)) ∨
    (ret = V_PUT_USER ∧ ph = .rest .server .str [] (.verify c pw)) ∨
    (ret = V_PRE_OK ∧ c = .auth ∧ ph = .verify .change pw) ∨
    (ret = V_CHTOK ∧ c = .none ∧ ph = .verify .change pw) ∨
    (ret = V_CHTOK_AUTH ∧ c = .none ∧ ph = .verify .auth pw) ∨
    (ret = V_OK ∧ ph = .command .settled) ∨
    ((ret = V_AUTH ∨ ret = V_FAIL) ∧ ((c = .none ∧ ph = .command .login) ∨
      (c = .auth ∧ ph = .verify .auth false) ∨ (c = .change ∧ ph = .verify .change pw))) := by
  unfold afterVerify at h
  split at h
  · exact Or.inl ⟨‹_›, (Option.some.inj h).symm⟩
  refine Or.inr ?_
  split at h
  · exact Or.inl ⟨‹_›, (Option.some.inj h).symm⟩
  refine Or.inr ?_
  split at h
  · rename_i hm
    refine Or.inl ⟨?_, (Option.some.inj h).symm⟩
    simp only [isMessage, Bool.or_eq_true, beq_iff_eq] at hm
    obtain (rfl | rfl) | rfl := hm
    · exact Or.inr (Or.inr rfl)
    · exact Or.inl rfl
    · exact Or.inr (Or.inl rfl)
  refine Or.inr ?_
  split at h
  · exact Or.inl ⟨‹_›, (Option.some.inj h).symm⟩
  refine Or.inr ?_
  split at h
  · split at h
    · exact Or.inl ⟨‹_›, ‹_›, (Option.some.inj h).symm⟩
    · cases h
  refine Or.inr ?_
  split at h
  · split at h
    · exact Or.inl ⟨‹_›, ‹_›, (Option.some.inj h).symm⟩
    · cases h
  refine Or.inr ?_
  split at h
  · split at h
    · exact Or.inl ⟨‹_›, ‹_›, (Option.some.inj h).symm⟩
    · cases h
  refine Or.inr ?_
  split at h
  · exact Or.inl ⟨‹_›, (Option.some.inj h).symm⟩
  refine Or.inr ?_
  split at h
  · refine ⟨‹_›, ?_⟩
    cases c with
    | none => exact Or.inl ⟨rfl, (Option.some.inj h).symm⟩
    | auth => exact Or.inr (Or.inl ⟨rfl, (Option.some.inj h).symm⟩)
    | change => exact Or.inr (Or.inr ⟨rfl, (Option.some.inj h).symm⟩)
  · cases h

theorem keeps_showMessage {Q : Unit → KG → Option Phase → Prop} (h : Q () g (some ph)) :
    Keeps (greetProtocol strict) .client Q showMessage g (some (.rest .server .str []
      (.rest .client .int [] ph))) := by
  unfold showMessage
  refine Keeps.bind (keeps_gRecvStr_rest .client fun msg => ?_)
  exact keeps_send_rest (i := .int 0) h

/-- The greeter hears the session process out. -/
structure Hearing (f : Func) (c : Change) (pw : Bool) (g : KG) : Prop where
  func : g.func = f
  prompt : g.prompt = none
  change : g.change = c
  knows : g.knows = true → pw = true
  timed : g.timed = false

theorem Sound.hearing (h : Sound f g ph) (ht : ph.turn ≠ .client) :
    ∃ c pw, ph = .verify c pw ∧ Hearing f c pw g := by
  obtain ⟨c, pw, rfl, hp, hc, hk, hs⟩ := h.touch.verify ht
  refine ⟨c, pw, rfl, h.func, hp, hc, hk, ?_⟩
  cases htimed : g.timed with
  | false => rfl
  | true =>
    obtain ⟨hf, hi, -⟩ := h.timed htimed
    exact absurd (h.func.trans hf) (hs hi)

theorem Hearing.busy (h : Hearing f c pw g) :
    Sound f { g with coreState := .CoreBusy } (.verify c pw) :=
  ⟨.busy rfl h.prompt h.change h.knows, h.func, fun ht => absurd (h.timed.symm.trans ht) nofun⟩

/-- The login is accepted: the session is put into the `.dmrc` if the dialog is the one for the login. -/
theorem keeps_acceptVerify (h : g.func = f) :
    Keeps (greetProtocol strict) .client (Went f) acceptVerify g (some (.command .settled)) := by
  unfold acceptVerify
  simp only [keeps_vars_bind]
  split
  · exact Keeps.bind (keeps_verifyOk ⟨h, rfl⟩)
  · exact ⟨h, rfl⟩

/-- A dialog for an expired password keeps to the protocol, and the outer one is as it was. -/
theorem keeps_execChTok {exec : Greet Bool} {func : Func}
    (hexec : ∀ f g ph, Sound f g ph →
      Keeps (greetProtocol strict) .client (Done f) exec g (some ph))
    (hk : g.knows = true → pw = true) (hc : (g.nested func).change = c) :
    Keeps (greetProtocol strict) .client (fun ok g' o => (∃ inner, g' = g.outer inner) ∧
      o = some (.command (if ok then .settled else .login))) (execChTok exec func) g
      (some (.verify c pw)) := by
  unfold execChTok
  simp only [keeps_vars_bind, keeps_assign_bind]
  refine Keeps.bind ((hexec func _ _ ⟨.busy rfl rfl hc hk, rfl, (fun h => by cases h)⟩).mono fun ok g' o hd => ?_)
  refine ⟨⟨g', rfl⟩, ?_⟩
  cases ok with
  | true => exact hd.2
  | false => exact hd.2.2

/-- Behind a cancelled change of the password the dialog for the login starts again. -/
theorem keeps_retry (hf : g.func = f) (hauth : f = .Authenticate) (hs : g.coreState = .CoreIdle)
    (hp : g.prompt = none) :
    Keeps (greetProtocol strict) .client (Went f) retry g (some (.command .login)) := by
  unfold retry
  simp only [keeps_assign_bind]
  exact went_on (.idle hf hs hp (Or.inl (hf.trans hauth)) (fun h => by cases h))

/-- The expired password is changed in a dialog of its own. -/
theorem keeps_change {exec : Greet Bool} {func : Func}
    (hexec : ∀ f g ph, Sound f g ph →
      Keeps (greetProtocol strict) .client (Done f) exec g (some ph))
    (hf : g.func = f) (hauth : f = .Authenticate) (hs : g.coreState = .CoreIdle)
    (hp : g.prompt = none) (hk : g.knows = true → pw = true)
    (hc : (g.nested func).change = c) :
    Keeps (greetProtocol strict) .client (Went f)
      (execChTok exec func >>= fun ok => if ok then acceptVerify else retry) g
      (some (.verify c pw)) := by
  refine Keeps.bind ((keeps_execChTok hexec hk hc).mono fun ok g' o hd => ?_)
  obtain ⟨⟨inner, rfl⟩, rfl⟩ := hd
  cases ok with
  | true => exact keeps_acceptVerify hf
  | false => exact keeps_retry hf hauth hs hp

/-- The plugin has failed: the dialog for the login is idle, another one waits for the next attempt. -/
theorem Hearing.failed (h : Hearing f c pw g) {g' : KG} (hs : g'.coreState = .CoreIdle)
    (hp : g'.prompt = none) (hf : g'.func = g.func) (ha : g'.authTok = g.authTok)
    (hg : g'.gaveUp = false) (hk : g'.knows = (g.knows && g.authTok)) (ht : g'.timed = false)
    (hph : (c = .none ∧ ph = .command .login) ∨ (c = .auth ∧ ph = .verify .auth false) ∨
      (c = .change ∧ ph = .verify .change pw)) : Sound f g' ph := by
  have hchange : g'.change = c := by
    rw [← h.change]
    unfold KG.change
    rw [hf, ha]
  refine ⟨?_, hf.trans h.func, fun htrue => absurd (ht.symm.trans htrue) (fun h => by cases h)⟩
  have hn : c ≠ .none → ¬ g'.Commanding := by
    intro hne hcom
    obtain hauth | hgave := hcom
    · exact hne (hchange.symm.trans (KG.change_authenticate hauth))
    · exact absurd (hg.symm.trans hgave) (fun h => by cases h)
  obtain ⟨rfl, rfl⟩ | ⟨rfl, rfl⟩ | ⟨rfl, rfl⟩ := hph
  · exact .idle hs hp (Or.inl (KG.change_none hchange))
  · refine .refused hs hp (hn (fun h => by cases h)) hchange fun hknows => ?_
    rw [hk, KG.change_auth h.change, Bool.and_false] at hknows
    exact hknows
  · refine .refused hs hp (hn (fun h => by cases h)) hchange fun hknows => h.knows ?_
    rw [hk, Bool.and_eq_true] at hknows
    exact hknows.1

theorem keeps_verifyFailed (h : Sound f g ph) :
    Keeps (greetProtocol strict) .client (Went f) (verifyFailed ui >>= fun _ => pure none) g
      (some ph) := by
  unfold verifyFailed
  refine Keeps.bind ?_
  simp only [keeps_vars_bind]
  split
  · rename_i hf
    exact keeps_load h fun _ => Or.inl hf.1
  · exact went_on h

/-- One code of `verify`, with what belongs to it, keeps the two ends in touch. -/
theorem keeps_handleVerify {exec : Greet Bool} {ret : Code}
    (hexec : ∀ f g ph, Sound f g ph →
      Keeps (greetProtocol strict) .client (Done f) exec g (some ph))
    (h : Hearing f c pw g) (hv : afterVerify c pw ret = some ph) :
    Keeps (greetProtocol strict) .client (Went f) (handleVerify ui exec ret) g (some ph) := by
  have hauth : c = .none → f = .Authenticate := by
    intro hc
    exact h.func.symm.trans (KG.change_none (h.change.trans hc))
  unfold handleVerify
  obtain ⟨rfl, rfl⟩ | ⟨rfl, rfl⟩ | ⟨hret, rfl⟩ | ⟨rfl, rfl⟩ | ⟨rfl, rfl, rfl⟩ | ⟨rfl, hc, rfl⟩ |
    ⟨rfl, hc, rfl⟩ | ⟨rfl, rfl⟩ | ⟨hret, hph⟩ := afterVerify_cases hv
  · -- a question for a text
    rw [if_pos rfl]
    refine Keeps.bind (keeps_gRecvStr rfl fun i s' hn => ?_)
    cases i with
    | int _ => cases hn
    | arr _ => cases hn
    | argv _ => cases hn
    | str msg =>
      obtain rfl := Option.some.inj hn
      refine ⟨msg, rfl, Keeps.bind (keeps_gRecvInt rfl fun i s' hn => ?_)⟩
      cases i with
      | str _ => cases hn
      | arr _ => cases hn
      | argv _ => cases hn
      | int echo =>
        obtain rfl := Option.some.inj hn
        refine ⟨echo, rfl, Keeps.bind (keeps_gRecvInt rfl fun i s' hn => ?_)⟩
        cases i with
        | str _ => cases hn
        | arr _ => cases hn
        | argv _ => cases hn
        | int ndelay =>
          obtain rfl := Option.some.inj hn
          refine ⟨ndelay, rfl, went_on ⟨.text rfl rfl h.change h.knows, h.func, fun ht => ?_⟩⟩
          exact absurd (h.timed.symm.trans ht) (fun h => by cases h)
  · -- a binary question
    rw [if_neg (by decide), if_pos rfl]
    refine Keeps.bind (keeps_gRecvArr rfl fun i s' hn => ?_)
    obtain ⟨hk, rfl⟩ := next_rest hn
    obtain ⟨data, rfl⟩ := eq_arr_of_kind hk
    refine ⟨data, rfl, Keeps.bind (keeps_gRecvInt_rest .client fun ndelay => ?_)⟩
    refine went_on ⟨.binary rfl rfl h.change h.knows, h.func, fun ht => ?_⟩
    exact absurd (h.timed.symm.trans ht) (fun h => by cases h)
  · -- a message
    have hne : ret ≠ V_GET_TEXT ∧ ret ≠ V_GET_BINARY ∧ ret ≠ V_PUT_USER ∧ ret ≠ V_PRE_OK := by
      obtain rfl | rfl | rfl := hret
      · decide
      · decide
      · decide
    rw [if_neg hne.1, if_neg hne.2.1, if_neg hne.2.2.1, if_neg hne.2.2.2, if_pos hret]
    rw [keeps_assign_bind]
    exact Keeps.bind (keeps_showMessage (went_on h.busy))
  · -- the name that PAM has
    rw [if_neg (by decide), if_neg (by decide), if_pos rfl]
    rw [keeps_assign_bind]
    refine Keeps.bind (keeps_gRecvStr_rest .client fun msg => ?_)
    simp only [keeps_vars_bind]
    split
    · refine Keeps.bind (keeps_slotUserEntered_later (fun h => by cases h) ?_)
      exact went_on (h.busy.same rfl rfl rfl rfl rfl rfl h.busy.timed)
    · exact went_on h.busy
  · -- authenticated for the change
    rw [if_neg (by decide), if_neg (by decide), if_neg (by decide), if_pos rfl]
    rw [keeps_assign_bind]
    have hf : g.func ≠ .Authenticate := by
      intro hf
      exact absurd ((KG.change_authenticate hf).symm.trans h.change) (fun h => by cases h)
    refine went_on ⟨.busy rfl h.prompt ?_ h.knows, h.func, fun ht => ?_⟩
    · unfold KG.change
      rw [if_neg hf, if_pos rfl]
    · exact absurd (h.timed.symm.trans ht) (fun h => by cases h)
  · -- the new password is asked for
    rw [if_neg (by decide), if_neg (by decide), if_neg (by decide), if_neg (by decide),
      if_neg (by decide)]
    rw [keeps_assign_bind]
    rw [if_neg (by decide), if_pos rfl]
    exact keeps_change hexec h.func (hauth hc) rfl h.prompt h.knows rfl
  · -- the user is authenticated again first
    rw [if_neg (by decide), if_neg (by decide), if_neg (by decide), if_neg (by decide),
      if_neg (by decide)]
    rw [keeps_assign_bind]
    rw [if_pos rfl]
    exact keeps_change hexec h.func (hauth hc) rfl h.prompt h.knows rfl
  · -- accepted
    rw [if_neg (by decide), if_neg (by decide), if_neg (by decide), if_neg (by decide),
      if_neg (by decide)]
    rw [keeps_assign_bind]
    rw [if_neg (by decide), if_neg (by decide), if_pos rfl]
    exact keeps_acceptVerify h.func
  · -- denied
    have hne : ret ≠ V_GET_TEXT ∧ ret ≠ V_GET_BINARY ∧ ret ≠ V_PUT_USER ∧ ret ≠ V_PRE_OK ∧
        ¬ (ret = V_MSG_ERR ∨ ret = V_MSG_INFO_AUTH ∨ ret = V_MSG_INFO) ∧ ret ≠ V_CHTOK_AUTH ∧
        ret ≠ V_CHTOK ∧ ret ≠ V_OK := by
      obtain rfl | rfl := hret
      · decide
      · decide
    rw [if_neg hne.1, if_neg hne.2.1, if_neg hne.2.2.1, if_neg hne.2.2.2.1, if_neg hne.2.2.2.2.1]
    rw [keeps_assign_bind]
    rw [if_neg hne.2.2.2.2.2.1, if_neg hne.2.2.2.2.2.2.1, if_neg hne.2.2.2.2.2.2.2]
    unfold failedPlugin
    rw [keeps_assign_bind]
    obtain rfl | rfl := hret
    · rw [if_pos rfl, keeps_assign_bind]
      exact keeps_verifyFailed (h.failed rfl h.prompt rfl rfl rfl rfl h.timed hph)
    · rw [if_neg (by decide), if_pos rfl]
      exact went_on (h.failed rfl h.prompt rfl rfl rfl rfl rfl hph)

/-- **The event loop of a dialog**, with the dialogs within it: it ends with the user accepted, or, if it
is about an expired password, cancelled. -/
theorem keeps_loop (hui : ui.Polite strict) (n : Nat) (f : Func) (g : KG) (ph : Phase)
    (h : Sound f g ph) :
    Keeps (greetProtocol strict) .client (Done f) (loop ui n) g (some ph) := by
  induction n generalizing f g ph with
  | zero => exact keeps_goOn
  | succ n ih =>
    have hagain : ∀ r g o, Went f r g o → Keeps (greetProtocol strict) .client (Done f)
        (match r with
          | none => loop ui n
          | some ok => pure ok) g o := by
      intro r g o hw
      cases r with
      | none =>
        obtain ⟨ph, rfl, hs⟩ := hw
        exact ih f g ph hs
      | some ok => exact hw
    refine keeps_select (P := greetProtocol strict) rfl (fun _ ht i s' hn => ?_) keeps_quit
      fun e he => ?_
    · obtain ⟨c, pw, rfl, hh⟩ := h.hearing ht
      cases i with
      | str _ => cases hn
      | arr _ => cases hn
      | argv _ => cases hn
      | int ret => exact Keeps.bind ((keeps_handleVerify ih hh hn).mono hagain)
    · exact Keeps.bind ((keeps_userEvent h (hui g e he)).mono hagain)

/-! ## `main` -/

theorem keeps_getCfg {Q : Unit → KG → Option Phase → Prop} {id : Code}
    (h : Q () g (some (.command st))) :
    Keeps (greetProtocol strict) .client Q (getCfg id) g (some (.command st)) := by
  unfold getCfg
  refine Keeps.bind (keeps_gSendInt (.cfgType st) rfl rfl ?_)
  refine Keeps.bind (keeps_gSendInt (.status id st) rfl rfl ?_)
  refine Keeps.bind (keeps_gRecvInt rfl fun i s' hn => ?_)
  cases i with
  | str _ => cases hn
  | arr _ => cases hn
  | argv _ => cases hn
  | int sts =>
    obtain rfl := Option.some.inj hn
    refine ⟨sts, rfl, ?_⟩
    unfold afterStatus
    by_cases hsts : sts ≠ GE_Ok
    · rw [if_pos hsts]
      exact keeps_quit
    rw [if_neg hsts, if_neg hsts]
    by_cases hint : id &&& C_TYPE_MASK = C_TYPE_INT
    · rw [if_pos hint, if_pos hint]
      exact Keeps.bind (keeps_gRecvInt_rest .client fun _ => h)
    rw [if_neg hint, if_neg hint]
    by_cases hstr : id &&& C_TYPE_MASK = C_TYPE_STR
    · rw [if_pos hstr, if_pos hstr]
      exact Keeps.bind (keeps_gRecvStr_rest .client fun _ => h)
    rw [if_neg hstr, if_neg hstr]
    by_cases hargv : id &&& C_TYPE_MASK = C_TYPE_ARGV
    · rw [if_pos hargv, if_pos hargv]
      exact Keeps.bind (keeps_gRecvArgv_rest .client fun _ => h)
    rw [if_neg hargv, if_neg hargv]
    exact keeps_quit

theorem keeps_initConfig {Q : Unit → KG → Option Phase → Prop} (cfgs : List Code)
    (h : Q () g (some (.command st))) :
    Keeps (greetProtocol strict) .client Q (initConfig cfgs) g (some (.command st)) := by
  induction cfgs with
  | nil => exact h
  | cons id cfgs ih => exact Keeps.bind (keeps_getCfg ih)

/-- The messages of the start of the session. -/
theorem keeps_handleFailVerify (n : Nat) :
    Keeps (greetProtocol strict) .client (fun _ _ o => o = some .over) (handleFailVerify n) g
      (some .final) := by
  induction n generalizing g with
  | zero => exact keeps_goOn
  | succ n ih =>
    unfold handleFailVerify
    refine Keeps.bind (keeps_gRecvInt rfl fun i s' hn => ?_)
    cases i with
    | str _ => cases hn
    | arr _ => cases hn
    | argv _ => cases hn
    | int ret =>
      refine ⟨ret, rfl, ?_⟩
      simp only [Phase.next, afterFinal] at hn
      split at hn
      · rename_i hm
        obtain rfl := Option.some.inj hn
        simp only [isMessage, Bool.or_eq_true, beq_iff_eq] at hm
        have hret : ret = V_MSG_ERR ∨ ret = V_MSG_INFO_AUTH ∨ ret = V_MSG_INFO := by
          obtain (h | h) | h := hm
          · exact Or.inr (Or.inr h)
          · exact Or.inl h
          · exact Or.inr (Or.inl h)
        rw [if_pos hret]
        exact Keeps.bind (keeps_showMessage ih)
      · split at hn
        · rename_i hok
          subst hok
          obtain rfl := Option.some.inj hn
          rw [if_neg (by decide), if_pos (Or.inl rfl)]
          rfl
        · cases hn

/-- The dialog for the login starts. -/
theorem keeps_start {Q : Unit → KG → Option Phase → Prop} (hf : g.func = .Authenticate)
    (hs : g.coreState = .CoreIdle) (hp : g.prompt = none) (ht : g.timed = false)
    (h : ∀ g', Sound .Authenticate g' (.command .login) → Q () g' (some (.command .login))) :
    Keeps (greetProtocol strict) .client Q (start ui) g (some (.command .login)) := by
  unfold start
  simp only [keeps_vars_bind]
  split
  · exact h _ (.idle hf hs hp (Or.inl hf) fun _ => ⟨rfl, rfl⟩)
  · exact h _ (.idle hf hs hp (Or.inl hf) fun htrue => absurd (ht.symm.trans htrue) (fun h => by cases h))

/-- **The greeter**: it keeps to the protocol, up to the end. -/
theorem greet_keeps (hui : ui.Polite strict) (n : Nat) :
    Keeps (greetProtocol strict) .client (fun _ _ o => o = some .over) (greet ui n) KG.init
      (some (.command .setup)) := by
  -- from the question for the kind of greeting on
  have hready : Keeps (greetProtocol strict) .client (fun _ _ o => o = some .over)
      (gSendInt G_Ready >>= fun _ => gRecvInt >>= fun cmd =>
        if cmd = G_Greet ∨ cmd = G_GreetTimed then do
          assign fun g => { g with timeable := ui.timeable && cmd = G_GreetTimed,
                                   sendInteract := true }
          start ui
          let _ ← loop ui n
          gSendInt G_Ready
          handleFailVerify n
        else quit) KG.init (some (.command .setup)) := by
    refine Keeps.bind (keeps_gSendInt .greet rfl rfl ?_)
    refine Keeps.bind (keeps_gRecvInt rfl fun i s' hn => ?_)
    cases i with
    | str _ => cases hn
    | arr _ => cases hn
    | argv _ => cases hn
    | int cmd =>
      refine ⟨cmd, rfl, ?_⟩
      simp only [Phase.next] at hn
      split at hn
      · obtain rfl := Option.some.inj hn
        rw [if_pos ‹_›]
        simp only [keeps_assign_bind]
        refine Keeps.bind (keeps_start rfl rfl rfl rfl fun g hg => ?_)
        refine Keeps.bind ((keeps_loop hui n _ _ _ hg).mono fun ok g' o hd => ?_)
        cases ok with
        | false => exact absurd rfl hd.2.1
        | true =>
          obtain ⟨-, rfl⟩ := hd
          exact Keeps.bind (keeps_gSendInt .final rfl rfl (keeps_handleFailVerify n))
      · cases hn
  unfold greet
  refine Keeps.bind (keeps_initConfig ui.cfgs ?_)
  split
  · refine Keeps.bind (keeps_gSendInt (.rest .server .int [] (.command .setup)) rfl rfl ?_)
    exact Keeps.bind (keeps_gRecvInt_rest .client fun _ => hready)
  · exact hready

/-! ## Both processes -/

/-- What the processes result in. -/
def Outcome : Side → Type
  | .server => Cmd × Vars
  | .client => Unit × KG

/-- The session process of a display, and a greeter that it has just started. -/
def login (core : Core) (timed : Bool) (msgs : List (Option Text)) (ui : Ui) (n : Nat) (v : Vars) :
    Config Item Event Outcome where
  proc
    | .server => manageSession core timed msgs n v
    | .client => greet ui n KG.init
  inbox _ := []

/-- How the processes end. -/
def Ended (core : Core) (strict : Bool) : (x : Side) → Outcome x → Option Phase → Prop
  | .server, r, o => (r.1 = .lost ∧ o = none) ∨
      (r.1 = .ready ∧ o = some .over ∧ Identified core strict r.2)
  | .client, _, o => o = some .over

variable {core : Core} {timed : Bool} {msgs : List (Option Text)} {n : Nat} {v : Vars}
  {d : Config Item Event Outcome}

theorem login_reached (hpam : core.pam.Tame) (hui : ui.Polite strict)
    (h : Reached (login core timed msgs ui n v) d) :
    ∃ o, InStep (greetProtocol strict) (Ended core strict) d o := by
  refine InStep.reached (o := fun _ => some (.command .setup)) (inStep_start fun x => ?_) h
  cases x with
  | server => exact manageSession_keeps hpam timed msgs n
  | client => exact greet_keeps hui n

/-- A library that asks for the password, and is content with any. -/
def oneQuestion : Library where
  pam_start _ _ _ := .PAM_SUCCESS
  pam_set_item _ := .PAM_SUCCESS
  pam_authenticate _ := .conv [⟨.PAM_PROMPT_ECHO_OFF, [80, 58]⟩] fun
    | none => .ret .PAM_AUTH_ERR
    | some _ => .ret .PAM_SUCCESS
  pam_acct_mgmt _ := .ret .PAM_SUCCESS
  pam_chauthtok _ := .ret .PAM_SUCCESS

theorem oneQuestion_tame : oneQuestion.Tame := by
  refine ⟨fun n => .conv ?_ ⟨_, rfl⟩ fun l => .ret _, fun n => .ret _, fun n => .ret _⟩
  intro m hm
  obtain rfl := List.mem_singleton.mp hm
  decide

/-- A display with one user. -/
def oneUser : Core where
  PAMService := [107, 100, 101]
  db := ⟨fun u => if u = [97] then some ⟨[97], [120], 1000, 100⟩ else none, fun _ => none, []⟩
  noPassUsers := []
  allowRootLogin := false
  autoUser := []
  autoPass := []
  pam := oneQuestion
  isLocal := true
  isReserve := false
  hasConsole := false
  isAuthorized := true
  cfgIds := []
  cfgInt _ := 0
  cfgStr _ := none
  cfgArgv _ := none
  cfgArr _ := none
  disk := ⟨[], fun _ => none, fun _ => none, fun _ _ => none, false, fun _ => false, 0⟩
  malloc _ := true

def Vars.start : Vars :=
  ⟨none, none, none, none, .PWSRC_MANUAL, none, false, false, 0, none, none, none, false⟩

/-- The plugin for the classic method: it starts the verification, and replies to what it is asked. -/
def classicUi : Ui where
  allowed g
    | .start => g.running && decide (g.func = .Authenticate)
    | .returnText (some _) _ =>
      match g.prompt with
      | some (.text none _ _) => true
      | _ => false
    | _ => false
  cfgs := [C_isLocal]
  grabServer := true
  method := CLASSIC
  timeable := false
  autoLoginUser := []
  autoLoginAgain := false
  presEnt := []
  sessionTypes := []
  userShown := false

theorem classicUi_polite (strict : Bool) : classicUi.Polite strict := by
  intro g e h
  cases e with
  | start =>
    simp only [classicUi, Bool.and_eq_true, decide_eq_true_eq] at h
    exact ⟨h.1, fun _ => h.2⟩
  | returnText text tag =>
    cases text with
    | none => cases h
    | some text =>
      simp only [classicUi] at h
      split at h
      · exact ⟨none, _, _, ‹_›, nofun⟩
      · cases h
  | _ => cases h

/-- The dialog is there. -/
def oneGreeter : Config Item Event Outcome :=
  (login oneUser false [] classicUi 9 Vars.start).moves 9

theorem reached_oneGreeter : Reached (login oneUser false [] classicUi 9 Vars.start) oneGreeter :=
  reached_moves 9 _

/-- Somebody logs in. -/
def oneLogin : Config Item Event Outcome :=
  ((((oneGreeter.event .client .start).moves 9).event .client (.returnText (some [97]) 0)).moves
    9).event .client (.returnText (some [98]) 0) |>.moves 9

theorem reached_oneLogin : Reached (login oneUser false [] classicUi 9 Vars.start) oneLogin :=
  ((((((reached_oneGreeter.trans (reached_event _ _ _)).trans (reached_moves _ _)).trans
    (reached_event _ _ _)).trans (reached_moves _ _)).trans (reached_event _ _ _)).trans
    (reached_moves _ _))

/-- The variables of a session process that is ready to start the client. -/
def readyVars : Script Item Event (Cmd × Vars) → Option Vars
  | .ret (.ready, w) => some w
  | _ => none

theorem ret_of_readyVars {p : Script Item Event (Cmd × Vars)} {w : Vars} (h : readyVars p = some w) :
    p = .ret (.ready, w) := by
  unfold readyVars at h
  split at h
  · rw [Option.some.inj h]
  · cases h

end Kdm.Login
