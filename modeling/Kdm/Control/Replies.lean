import Kdm.Backend.Logins
import Kdm.Backend.Text
import Kdm.Lib.Lines

/-!
# Replies on the control sockets

The texts that `list` and `listbootoptions` are answered with, a character for a byte.  The fields
of a session come from the configuration, from the network and from the login, and are copied as
they are; in a boot option only blanks are escaped.

* `parseList` — a reply to `list`, cut at tabs and commas.
* `Determined` — the titles can be told from the reply to `listbootoptions`.

Principal result: `replies_unambiguous_iff`.
-/

namespace Kdm.Control

abbrev Text := List Char

/-- `strCatL`. -/
def shown (s : String) (max : Nat) : Text := s.toList.take max

/-- `sprintf` of `%d`. -/
def decimal (n : Int) : Text := (if n < 0 then ['-'] else []) ++ n.natAbs.repr.toList

/-- `displayName`. -/
def displayName (d : Display) : String :=
  if d.name.toList.take 10 = "localhost:".toList then String.ofList (d.name.toList.drop 9)
  else d.name

/-- `sizeof(cbuf)` of `emitXSessC`. -/
def CBUF : Nat := 1024

/-- The session of `di` may not be killed from the socket. -/
def protectedX (fifoAllowNuke : Bool) (d : Option Display) (di : Display) : Bool :=
  0 ≤ di.userSess &&
    match d with
    | some d => d.userSess != di.userSess &&
        (d.conf.allowNuke == .none || d.conf.allowNuke == .root && d.userSess != 0)
    | none => !fifoAllowNuke

def emitXSessC (fifoAllowNuke : Bool) (d : Option Display) (di : Display) : Text :=
  ['\t'] ++ shown (displayName di) (CBUF / 2) ++ [','] ++
    (if di.serverVT ≠ 0 then "vt".toList ++ decimal di.serverVT else []) ++ [','] ++
    (if di.status = .remoteLogin then [','] ++ shown (di.remoteHost.getD "") (CBUF / 3)
    else shown (di.userName.getD "") (CBUF / 5) ++ [','] ++ shown (di.sessName.getD "") (CBUF / 5)) ++
    [','] ++
    (if d.map Display.id = some di.id then ['*'] else []) ++
    (if protectedX fifoAllowNuke d di then ['!'] else [])

/-- The user of a TTY session. -/
def ttyUser (ut : UtEntry) : String := if ut.userProcess then ut.user else ""

/-- The TTY session may not be killed from the socket. -/
def protectedTTY (fifoAllowNuke : Bool) (d : Option Display) (ut : UtEntry) : Bool :=
  ttyUser ut != "" &&
    match d with
    | some d => (d.conf.allowNuke == .none || d.conf.allowNuke == .root && d.userSess != 0) &&
        ut.uid != some d.userSess
    | none => !fifoAllowNuke

def emitTTYSessC (fifoAllowNuke : Bool) (d : Option Display) (ut : UtEntry) : Text :=
  ['\t'] ++ ut.line.toList ++ [','] ++
    (if ut.host ≠ "" then ['@'] ++ ut.host.toList
    else if ttyToVT ut.line ≠ 0 then "vt".toList ++ decimal (ttyToVT ut.line) else []) ++
    [','] ++ (ttyUser ut).toList ++ [','] ++ [','] ++ ['t'] ++
    (if protectedTTY fifoAllowNuke d ut then ['!'] else [])

def emitSession (fifoAllowNuke : Bool) (d : Option Display) : Session → Text
  | .x di => emitXSessC fifoAllowNuke d di
  | .tty ut => emitTTYSessC fifoAllowNuke d ut

/-- The reply to `list`. -/
def listReply (fifoAllowNuke : Bool) (d : Option Display) (l : List Session) : Text :=
  "ok".toList ++ l.flatMap (emitSession fifoAllowNuke d) ++ ['\n']

/-- A boot option as it is emitted. -/
def escapeOption (t : Text) : Text := t.flatMap fun c => if c = ' ' then ['\\', 's'] else [c]

/-- The reply to `listbootoptions`. -/
def bootReply (opts : List Text) (dflt curr : Int) : Text :=
  "ok\t".toList ++ [' '].intercalate (opts.map escapeOption) ++ ['\t'] ++ decimal dflt ++ ['\t'] ++
    decimal curr ++ ['\n']

/-! ## The list of sessions -/

/-- A reply to `list`: the tuples behind the status, up to the end of the line. -/
def parseList (reply : Text) : List (List Text) :=
  (((reply.takeWhile (· ≠ '\n')).splitOn '\t').tail).map (·.splitOn ',')

/-- The fields of a session. -/
def fields (fifoAllowNuke : Bool) (d : Option Display) : Session → List Text
  | .x di =>
    [shown (displayName di) (CBUF / 2),
      if di.serverVT ≠ 0 then "vt".toList ++ decimal di.serverVT else [],
      if di.status = .remoteLogin then [] else shown (di.userName.getD "") (CBUF / 5),
      if di.status = .remoteLogin then shown (di.remoteHost.getD "") (CBUF / 3)
      else shown (di.sessName.getD "") (CBUF / 5),
      (if d.map Display.id = some di.id then ['*'] else []) ++
        (if protectedX fifoAllowNuke d di then ['!'] else [])]
  | .tty ut =>
    [ut.line.toList,
      if ut.host ≠ "" then ['@'] ++ ut.host.toList
      else if ttyToVT ut.line ≠ 0 then "vt".toList ++ decimal (ttyToVT ut.line) else [],
      (ttyUser ut).toList, [],
      ['t'] ++ (if protectedTTY fifoAllowNuke d ut then ['!'] else [])]

theorem emitSession_eq (fifoAllowNuke : Bool) (d : Option Display) (l : Session) :
    emitSession fifoAllowNuke d l = '\t' :: [','].intercalate (fields fifoAllowNuke d l) := by
  cases l with
  | x di =>
    by_cases hr : di.status = .remoteLogin
    · simp [emitSession, emitXSessC, fields, List.intercalate_cons_cons, hr]
    · simp [emitSession, emitXSessC, fields, List.intercalate_cons_cons, hr]
  | tty ut =>
    simp [emitSession, emitTTYSessC, fields, List.intercalate_cons_cons]

/-- No separator of the list of sessions and no end of line. -/
structure Clean (t : Text) : Prop where
  tab : '\t' ∉ t
  comma : ',' ∉ t
  newline : '\n' ∉ t

/-- The texts of a session that come from elsewhere are clean. -/
def CleanSession : Session → Prop
  | .x di =>
    Clean (shown (displayName di) (CBUF / 2)) ∧
      if di.status = .remoteLogin then Clean (shown (di.remoteHost.getD "") (CBUF / 3))
      else Clean (shown (di.userName.getD "") (CBUF / 5)) ∧
        Clean (shown (di.sessName.getD "") (CBUF / 5))
  | .tty ut => Clean ut.line.toList ∧ Clean ut.host.toList ∧ Clean (ttyUser ut).toList

/-! ### Texts of our own are clean -/

theorem clean_of_forall {t : Text} (h : ∀ c ∈ t, c ≠ '\t' ∧ c ≠ ',' ∧ c ≠ '\n') : Clean t :=
  ⟨fun hm => (h _ hm).1 rfl, fun hm => (h _ hm).2.1 rfl, fun hm => (h _ hm).2.2 rfl⟩

theorem clean_append {t t' : Text} : Clean (t ++ t') ↔ Clean t ∧ Clean t' := by
  constructor
  · rintro ⟨h1, h2, h3⟩
    simp only [List.mem_append, not_or] at h1 h2 h3
    exact ⟨⟨h1.1, h2.1, h3.1⟩, ⟨h1.2, h2.2, h3.2⟩⟩
  · rintro ⟨h, h'⟩
    refine ⟨?_, ?_, ?_⟩ <;> rw [List.mem_append, not_or]
    · exact ⟨h.tab, h'.tab⟩
    · exact ⟨h.comma, h'.comma⟩
    · exact ⟨h.newline, h'.newline⟩

theorem clean_nil : Clean [] := clean_of_forall (by simp)

/-- The characters of a number. -/
theorem mem_decimal {n : Int} {c : Char} (h : c ∈ decimal n) : c = '-' ∨ c.isDigit = true := by
  unfold decimal at h
  rcases List.mem_append.mp h with h | h
  · split at h
    · exact .inl (List.mem_singleton.mp h)
    · cases h
  · rw [Nat.toList_repr] at h
    exact .inr (Nat.isDigit_of_mem_toDigits (by decide) (by decide) h)

theorem clean_decimal (n : Int) : Clean (decimal n) := by
  refine clean_of_forall fun c hc => ?_
  rcases mem_decimal hc with rfl | hd
  · decide
  · refine ⟨?_, ?_, ?_⟩ <;> rintro rfl <;> exact absurd hd (by decide)

theorem clean_vt (vt : Int) : Clean (if vt ≠ 0 then "vt".toList ++ decimal vt else []) := by
  split
  · exact clean_append.mpr ⟨clean_of_forall (by simp), clean_decimal vt⟩
  · exact clean_nil

theorem clean_flag (p : Prop) [Decidable p] {c : Char} (hc : c ≠ '\t' ∧ c ≠ ',' ∧ c ≠ '\n') :
    Clean (if p then [c] else []) := by
  split
  · exact clean_of_forall (by simpa using hc)
  · exact clean_nil

theorem cleanSession_iff (fifoAllowNuke : Bool) (d : Option Display) (l : Session) :
    CleanSession l ↔ ∀ f ∈ fields fifoAllowNuke d l, Clean f := by
  cases l with
  | x di =>
    have hflags := clean_append.mpr ⟨clean_flag (d.map Display.id = some di.id) (c := '*') (by decide),
      clean_flag (protectedX fifoAllowNuke d di = true) (c := '!') (by decide)⟩
    simp only [fields, CleanSession, List.forall_mem_cons, clean_vt, hflags, true_and, and_true,
      List.not_mem_nil, false_implies, implies_true]
    refine and_congr_right fun _ => ?_
    split
    · simp [clean_nil]
    · rfl
  | tty ut =>
    have hflags := clean_append.mpr ⟨(clean_of_forall (by simp) : Clean ['t']),
      clean_flag (protectedTTY fifoAllowNuke d ut = true) (c := '!') (by decide)⟩
    simp only [fields, CleanSession, List.forall_mem_cons, hflags, clean_nil, and_true,
      List.not_mem_nil, false_implies, implies_true]
    refine and_congr_right fun _ => and_congr_left fun _ => ?_
    split
    · rw [clean_append]
      exact (and_iff_right (clean_of_forall (by simp))).symm
    · rename_i hhost
      rw [not_not.mp hhost]
      exact iff_of_true clean_nil (clean_vt _)

/-- **The list of sessions** can be read back if and only if the texts in it are clean. -/
theorem parseList_listReply_iff (fifoAllowNuke : Bool) (d : Option Display) (l : List Session) :
    parseList (listReply fifoAllowNuke d l) = l.map (fields fifoAllowNuke d) ↔
      ∀ x ∈ l, CleanSession x := by
  let g := fun x => [','].intercalate (fields fifoAllowNuke d x)
  have hbody : "ok".toList ++ l.flatMap (emitSession fifoAllowNuke d) =
      ['\t'].intercalate ("ok".toList :: l.map g) := by
    rw [show emitSession fifoAllowNuke d = fun x => '\t' :: g x from
      funext (emitSession_eq fifoAllowNuke d)]
    exact Lines.append_flatMap_eq_intercalate g l _
  constructor
  · intro h x hx
    rw [cleanSession_iff fifoAllowNuke d]
    have hmem : fields fifoAllowNuke d x ∈ parseList (listReply fifoAllowNuke d l) :=
      h ▸ List.mem_map_of_mem hx
    obtain ⟨p, hp, hpf⟩ := List.mem_map.mp hmem
    have hp' := List.mem_of_mem_tail hp
    intro f hf
    rw [← hpf] at hf
    refine ⟨fun hc => ?_, Lines.not_mem_of_mem_splitOn hf, fun hc => ?_⟩
    · exact Lines.not_mem_of_mem_splitOn hp' (Lines.mem_of_mem_splitOn hf hc)
    · have hline := Lines.mem_of_mem_splitOn hp' (Lines.mem_of_mem_splitOn hf hc)
      exact Lines.not_mem_takeWhile '\n' _ hline
  · intro h
    have hclean : ∀ x ∈ l, ∀ f ∈ fields fifoAllowNuke d x, Clean f := fun x hx =>
      (cleanSession_iff fifoAllowNuke d x).mp (h x hx)
    have hg {c : Char} {x : Session} (hx : x ∈ l) (hc : c ≠ ',')
        (hnot : ∀ f ∈ fields fifoAllowNuke d x, c ∉ f) : c ∉ g x := fun hm =>
      (Lines.mem_intercalate hm).elim hc fun ⟨f, hf, hcf⟩ => hnot f hf hcf
    have hsep {c : Char} (hok : c ∉ "ok".toList) (hl : ∀ x ∈ l, c ∉ g x) :
        ∀ p ∈ "ok".toList :: l.map g, c ∉ p := by
      intro p hp
      rcases List.mem_cons.mp hp with rfl | hp
      · exact hok
      · obtain ⟨x, hx, rfl⟩ := List.mem_map.mp hp
        exact hl x hx
    have hnewline : '\n' ∉ ['\t'].intercalate ("ok".toList :: l.map g) := fun hm =>
      (Lines.mem_intercalate hm).elim (by decide) fun ⟨p, hp, hc⟩ =>
        hsep (by decide) (fun x hx => hg hx (by decide) fun f hf => (hclean x hx f hf).newline) p hp hc
    unfold parseList listReply
    rw [hbody, (Lines.takeWhile_eq_iff.mpr ⟨hnewline, [], rfl⟩).2, List.splitOn_intercalate, List.tail_cons,
      List.map_map]
    · refine List.map_congr_left fun x hx => ?_
      refine List.splitOn_intercalate ',' (fun f hf => (hclean x hx f hf).comma) ?_
      cases x <;> exact List.cons_ne_nil _ _
    · exact hsep (by decide) fun x hx => hg hx (by decide) fun f hf => (hclean x hx f hf).tab
    · exact List.cons_ne_nil _ _

/-! ## The boot options -/

/-- The titles can be told from the reply. -/
def Determined (opts : List Text) (dflt curr : Int) : Prop :=
  ∀ opts' dflt' curr', bootReply opts' dflt' curr' = bootReply opts dflt curr → opts' = opts

/-- A title that is emitted as it is, and that no other one is escaped to. -/
structure PlainTitle (t : Text) : Prop where
  blank : ' ' ∉ t
  escape : ¬ ['\\', 's'] <:+: t

theorem escapeOption_cons (c : Char) (t : Text) :
    escapeOption (c :: t) = (if c = ' ' then ['\\', 's'] else [c]) ++ escapeOption t :=
  List.flatMap_cons

theorem escapeOption_append (t t' : Text) :
    escapeOption (t ++ t') = escapeOption t ++ escapeOption t' :=
  List.flatMap_append

theorem escapeOption_of_blank {t : Text} (h : ' ' ∉ t) : escapeOption t = t := by
  induction t with
  | nil => rfl
  | cons c t ih =>
    rw [List.mem_cons, not_or] at h
    rw [escapeOption_cons, if_neg (Ne.symm h.1), ih h.2]
    rfl

theorem blank_not_mem_escapeOption (t : Text) : ' ' ∉ escapeOption t := by
  induction t with
  | nil => exact List.not_mem_nil
  | cons c t ih =>
    rw [escapeOption_cons, List.mem_append, not_or]
    refine ⟨?_, ih⟩
    split
    · decide
    · rename_i hc
      simpa using Ne.symm hc

/-- The escape of a title with a blank has the escape sequence in it. -/
theorem infix_escapeOption {t : Text} (h : ' ' ∈ t) : ['\\', 's'] <:+: escapeOption t := by
  obtain ⟨a, b, rfl⟩ := List.append_of_mem h
  rw [escapeOption_append, escapeOption_cons, if_pos (Eq.refl ' ')]
  exact ⟨escapeOption a, escapeOption b, List.append_assoc _ _ _⟩

theorem bootReply_eq (opts : List Text) (dflt curr : Int) :
    bootReply opts dflt curr =
      ("ok\t".toList ++ [' '].intercalate (opts.map escapeOption) ++ '\t' :: decimal dflt) ++
        '\t' :: (decimal curr ++ ['\n']) := by
  unfold bootReply
  generalize "ok\t".toList = ok
  simp only [List.append_assoc, List.cons_append, List.nil_append]

/-- The titles end where the last but one tab is. -/
theorem titles_of_bootReply {opts opts' : List Text} {dflt dflt' curr curr' : Int}
    (h : bootReply opts' dflt' curr' = bootReply opts dflt curr) :
    [' '].intercalate (opts'.map escapeOption) = [' '].intercalate (opts.map escapeOption) := by
  have htail (n : Int) : '\t' ∉ decimal n ++ ['\n'] := by
    rw [List.mem_append, not_or]
    exact ⟨(clean_decimal n).tab, by decide⟩
  rw [bootReply_eq, bootReply_eq] at h
  have hlast := (Lines.append_cons_inj_last (htail curr') (htail curr) h).1
  have hbefore := (Lines.append_cons_inj_last (clean_decimal dflt').tab (clean_decimal dflt).tab
    hlast).1
  exact List.append_cancel_left hbefore

theorem bootReply_congr {opts opts' : List Text}
    (h : [' '].intercalate (opts'.map escapeOption) = [' '].intercalate (opts.map escapeOption))
    (dflt curr : Int) : bootReply opts' dflt curr = bootReply opts dflt curr := by
  unfold bootReply
  rw [h]

/-- Two titles that are escaped to the same text may be exchanged. -/
theorem not_determined {p q : List Text} {t : Text} {dflt curr : Int} (t' : Text) (hne : t' ≠ t)
    (h : escapeOption t' = escapeOption t) : ¬ Determined (p ++ t :: q) dflt curr := by
  intro hdet
  have heq := hdet (p ++ t' :: q) dflt curr (bootReply_congr (by simp [h]) dflt curr)
  exact hne (List.cons.inj (List.append_cancel_left heq)).1

/-- **The list of titles** can be told from the reply if and only if it is not empty, not a single
empty title, and all titles are plain. -/
theorem determined_iff (opts : List Text) (dflt curr : Int) :
    Determined opts dflt curr ↔ opts ≠ [] ∧ opts ≠ [[]] ∧ ∀ t ∈ opts, PlainTitle t := by
  constructor
  · intro hdet
    refine ⟨?_, ?_, fun t ht => ?_⟩
    · rintro rfl
      exact absurd (hdet [[]] dflt curr rfl) (by decide)
    · rintro rfl
      exact absurd (hdet [] dflt curr rfl) (by decide)
    · obtain ⟨p, q, rfl⟩ := List.append_of_mem ht
      constructor
      · intro hblank
        obtain ⟨a, b, rfl⟩ := List.append_of_mem hblank
        refine not_determined (a ++ '\\' :: 's' :: b) ?_ ?_ hdet
        · intro he
          have hlen := congrArg List.length he
          simp only [List.length_append, List.length_cons] at hlen
          omega
        · simp [escapeOption_append, escapeOption_cons]
      · rintro ⟨a, b, rfl⟩
        refine not_determined (a ++ ' ' :: b) ?_ ?_ hdet
        · intro he
          have hlen := congrArg List.length he
          simp only [List.length_append, List.length_cons, List.length_nil] at hlen
          omega
        · simp [escapeOption_append, escapeOption_cons]
  · rintro ⟨hnil, hempty, hplain⟩ opts' dflt' curr' h
    have hself : opts.map escapeOption = opts :=
      (List.map_congr_left fun t ht => escapeOption_of_blank (hplain t ht).blank).trans (List.map_id _)
    have htitles := titles_of_bootReply h
    rw [hself] at htitles
    have hsplit := List.splitOn_intercalate ' ' (fun t ht => (hplain t ht).blank) hnil
    rw [← htitles] at hsplit
    have hne : opts' ≠ [] := by
      rintro rfl
      exact hempty hsplit.symm
    rw [List.splitOn_intercalate ' ' (by
      intro t ht
      obtain ⟨t', -, rfl⟩ := List.mem_map.mp ht
      exact blank_not_mem_escapeOption t') (by simpa using hne)] at hsplit
    have hid : opts'.map escapeOption = opts' := by
      refine (List.map_congr_left fun t ht => ?_).trans (List.map_id _)
      refine escapeOption_of_blank fun hblank => ?_
      exact (hplain _ (hsplit ▸ List.mem_map_of_mem ht)).escape (infix_escapeOption hblank)
    rw [← hsplit, hid]

/-! ## Principal result -/

/-- **The replies are unambiguous** if and only if the texts of the sessions are clean and the
titles of the boot options are plain. -/
theorem replies_unambiguous_iff (fifoAllowNuke : Bool) (d : Option Display) (l : List Session)
    (opts : List Text) (dflt curr : Int) :
    (parseList (listReply fifoAllowNuke d l) = l.map (fields fifoAllowNuke d) ↔
      ∀ x ∈ l, CleanSession x) ∧
    (Determined opts dflt curr ↔ opts ≠ [] ∧ opts ≠ [[]] ∧ ∀ t ∈ opts, PlainTitle t) :=
  ⟨parseList_listReply_iff fifoAllowNuke d l, determined_iff opts dflt curr⟩

/-- A user sets his session to `a,b` in `~/.dmrc`; a boot option has a blank in its title. -/
theorem not_replies_unambiguous :
    (∃ di : Display, parseList (listReply true none [.x di]) ≠ [fields true none (.x di)]) ∧
      ["a b".toList] ≠ ["a\\sb".toList] ∧
        bootReply ["a b".toList] (-1) (-1) = bootReply ["a\\sb".toList] (-1) (-1) :=
  ⟨⟨{ Display.fresh 0 ":0" with userSess := 7, sessName := some "a,b" }, by decide⟩, by decide,
    by decide⟩

end Kdm.Control
