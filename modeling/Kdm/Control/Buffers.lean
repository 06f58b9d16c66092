import Kdm.Boot.Manager
import Kdm.Control.Replies

/-!
# The buffers of the replies

Each part of a reply is put together in a `cbuf` of fixed size: `*bp++`, `strCat` and `strCatL`
store their characters, and `sprintf` a NUL behind them.

* `Store`, `storeAll` — the stores into a buffer, which fail at its end.
* `Part` — the parts of replies with their buffers.

Principal result: `inBuffer_iff`.
-/

namespace Kdm.Control

/-- Characters that are stored at `bp`, and whether a NUL is stored behind them. -/
structure Store where
  text : Text
  nul : Bool

namespace Store

/-- `*bp++ = c` -/
def char (c : Char) : Store := ⟨[c], false⟩

/-- `strCat` -/
def cat (text : Text) : Store := ⟨text, false⟩

/-- `strCatL` -/
def catL (str : String) (max : Nat) : Store := ⟨shown str max, false⟩

/-- `bp += sprintf(bp, ..)` -/
def printf (text : Text) : Store := ⟨text, true⟩

end Store

/-- The stores from a place on; nothing when they leave the buffer. -/
def storeAll (size : Nat) : Nat → List Store → Option Nat
  | bp, [] => some bp
  | bp, s :: l =>
    if bp + s.text.length + (if s.nul then 1 else 0) ≤ size then
      storeAll size (bp + s.text.length) l
    else none

def stored (l : List Store) : Text := l.flatMap Store.text

/-! ## The parts of replies -/

/-- `%d`, of an `int`. -/
def printInt (n : Int) : Text := decimal (toInt n)

def storesXSess (fifoAllowNuke : Bool) (d : Option Display) (di : Display) : List Store :=
  [.char '\t', .catL (displayName di) (CBUF / 2), .char ','] ++
    (if di.serverVT ≠ 0 then [.printf ("vt".toList ++ printInt di.serverVT)] else []) ++
    [.char ','] ++
    (if di.status = .remoteLogin then [.char ',', .catL (di.remoteHost.getD "") (CBUF / 3)]
    else
      (di.userName.map fun s => Store.catL s (CBUF / 5)).toList ++ [.char ','] ++
        (di.sessName.map fun s => Store.catL s (CBUF / 5)).toList) ++
    [.char ','] ++
    (if d.map Display.id = some di.id then [.char '*'] else []) ++
    (if protectedX fifoAllowNuke d di then [.char '!'] else [])

/-- `sizeof(ut->ut_line)`, `sizeof(ut->ut_user)` and `sizeof(ut->ut_host)`. -/
def UT_LINESIZE : Nat := 32
def UT_NAMESIZE : Nat := 32
def UT_HOSTSIZE : Nat := 256

def storesTTYSess (fifoAllowNuke : Bool) (d : Option Display) (ut : UtEntry) : List Store :=
  [.char '\t', .catL ut.line UT_LINESIZE, .char ','] ++
    (if ut.host ≠ "" then [.char '@', .catL ut.host UT_HOSTSIZE]
    else if ttyToVT ut.line ≠ 0 then [.printf ("vt".toList ++ printInt (ttyToVT ut.line))]
    else []) ++
    [.char ',', .cat (shown (ttyUser ut) UT_NAMESIZE), .char ',', .char ',', .char 't'] ++
    (if protectedTTY fifoAllowNuke d ut then [.char '!'] else [])

/-- A time of a shutdown record, in the time of the clock. -/
def printTime (delta time : Int) : Text := printInt (if time ≠ 0 then time + delta else 0) ++ [',']

def forceName (force : Fin 4) : Text :=
  if force = SHUT_ASK then "ask".toList
  else if force = SHUT_FORCE then "force".toList
  else if force = SHUT_FORCEMY then "forcemy".toList
  else "cancel".toList

def sdCat (delta : Int) (sdr : SdRec) : List Store :=
  [.cat (if sdr.how = SHUT_HALT then "halt,".toList else "reboot,".toList),
    if sdr.start = TO_INF then .cat "0,".toList else .printf (printTime delta sdr.start),
    if sdr.timeout = TO_INF then .cat "-1,".toList else .printf (printTime delta sdr.timeout),
    .cat (forceName sdr.force),
    .printf ([','] ++ printInt sdr.uid ++ [','] ++ (sdr.osname.getD "-").toList)]

/-- The reply to `shutdown status`, with the record of the display if the socket is that of one. -/
def storesStatus (delta : Int) (sdRec : SdRec) (local' : Option SdRec) : List Store :=
  [.char 'o', .char 'k'] ++
    (if sdRec.how ≠ 0 then .cat "\tglobal,".toList :: sdCat delta sdRec else []) ++
    (match local' with
    | some sdr => if sdr.how ≠ 0 then .cat "\tlocal,".toList :: sdCat delta sdr else []
    | none => []) ++
    [.char '\n']

/-- A boot option in the reply to `listbootoptions`. -/
def storesOption (i : Nat) (opt : Text) : List Store :=
  (if i ≠ 0 then [.char ' '] else []) ++
    opt.flatMap fun c => if c = ' ' then [.char '\\', .char 's'] else [.char c]

/-- The parts of replies that are put together in a buffer. -/
inductive Part where
  | xSess (fifoAllowNuke : Bool) (d : Option Display) (di : Display)
  | ttySess (fifoAllowNuke : Bool) (d : Option Display) (ut : UtEntry)
  | status (delta : Int) (sdRec : SdRec) (local' : Option SdRec)
  | option (i : Nat) (opt : Text)
  | options (dflt curr : Int)

def Part.stores : Part → List Store
  | .xSess fifoAllowNuke d di => storesXSess fifoAllowNuke d di
  | .ttySess fifoAllowNuke d ut => storesTTYSess fifoAllowNuke d ut
  | .status delta sdRec local' => storesStatus delta sdRec local'
  | .option i opt => storesOption i opt
  | .options dflt curr => [.printf (['\t'] ++ printInt dflt ++ ['\t'] ++ printInt curr ++ ['\n'])]

/-- `sizeof(cbuf)` -/
def Part.size : Part → Nat
  | .ttySess _ _ _ => UT_LINESIZE + UT_NAMESIZE + UT_HOSTSIZE + 16
  | _ => CBUF

/-- **The property**: no store is behind the end of the buffer. -/
def Part.InBuffer (x : Part) : Prop := storeAll x.size 0 x.stores ≠ none

/-! ## The exact condition -/

/-- How long a shutdown record is in a reply. -/
def sdLen (delta : Int) (sdr : SdRec) : Nat :=
  (if sdr.how = SHUT_HALT then 5 else 7) +
    (if sdr.start = TO_INF then 2 else (printTime delta sdr.start).length) +
    (if sdr.timeout = TO_INF then 3 else (printTime delta sdr.timeout).length) +
    (forceName sdr.force).length + 2 + (printInt sdr.uid).length + (sdr.osname.getD "-").length

/-- The parts for which there is room: the names in the shutdown records are not too long, and
neither is a boot option with its blanks counted twice. -/
def Part.Short : Part → Prop
  | .xSess _ _ _ | .ttySess _ _ _ | .options _ _ => True
  | .status delta sdRec local' =>
    3 + (if sdRec.how ≠ 0 then 8 + sdLen delta sdRec else 0) +
      (local'.elim 0 fun sdr => if sdr.how ≠ 0 then 7 + sdLen delta sdr else 0) ≤ CBUF
  | .option i opt => (if i ≠ 0 then 1 else 0) + (opt.length + opt.count ' ') ≤ CBUF

/-! ## Lengths -/

theorem length_printInt (n : Int) : (printInt n).length ≤ 11 := by
  have hrange : -0x80000000 ≤ toInt n ∧ toInt n < 0x80000000 := by
    unfold toInt
    omega
  have habs : (toInt n).natAbs < 10 ^ 10 := by omega
  have hlen := (Nat.length_repr_le_iff (n := (toInt n).natAbs) (k := 10) (by omega)).mpr habs
  unfold printInt decimal
  rw [List.length_append, String.length_toList]
  split
  · exact Nat.add_le_add (Nat.le_refl 1) hlen
  · rw [List.length_nil, Nat.zero_add]
    exact Nat.le_succ_of_le hlen

theorem length_shown (s : String) (max : Nat) : (shown s max).length ≤ max :=
  List.length_take_le _ _

theorem stored_append (l l' : List Store) : stored (l ++ l') = stored l ++ stored l' :=
  List.flatMap_append

/-- With a byte to spare for a NUL everything fits. -/
theorem storeAll_of_lt {size bp : Nat} {l : List Store} (h : bp + (stored l).length < size) :
    storeAll size bp l ≠ none := by
  induction l generalizing bp with
  | nil => simp [storeAll]
  | cons s l ih =>
    rw [stored, List.flatMap_cons, ← stored, List.length_append] at h
    rw [storeAll, if_pos (by split <;> omega)]
    exact ih (by omega)

/-- When a character comes last, the NULs in front of it do not matter. -/
theorem storeAll_iff {size bp : Nat} (l : List Store) (c : Char) :
    storeAll size bp (l ++ [.char c]) ≠ none ↔ bp + (stored l).length + 1 ≤ size := by
  induction l generalizing bp with
  | nil =>
    rw [List.nil_append, storeAll, storeAll]
    show (if bp + 1 + 0 ≤ size then some (bp + 1) else none) ≠ none ↔ bp + 0 + 1 ≤ size
    split <;> simp <;> omega
  | cons s l ih =>
    rw [List.cons_append, storeAll, stored, List.flatMap_cons, ← stored, List.length_append]
    by_cases hs : bp + s.text.length + (if s.nul then 1 else 0) ≤ size
    · rw [if_pos hs, ih]
      omega
    · rw [if_neg hs]
      refine iff_of_false (fun h => h rfl) fun h => hs ?_
      split <;> omega

theorem storeAll_plain {size bp : Nat} {l : List Store} (hl : ∀ s ∈ l, s.nul = false)
    (hbp : bp ≤ size) : storeAll size bp l ≠ none ↔ bp + (stored l).length ≤ size := by
  induction l generalizing bp with
  | nil => exact iff_of_true (by simp [storeAll]) hbp
  | cons s l ih =>
    obtain ⟨hs, hl⟩ := List.forall_mem_cons.mp hl
    rw [storeAll, hs, if_neg Bool.false_ne_true, Nat.add_zero, stored, List.flatMap_cons, ← stored,
      List.length_append]
    by_cases hle : bp + s.text.length ≤ size
    · rw [if_pos hle, ih hl hle]
      omega
    · rw [if_neg hle]
      exact iff_of_false (fun h => h rfl) fun h => hle (by omega)

/-! ## The parts -/

theorem stored_ite {p : Prop} [Decidable p] (l l' : List Store) :
    stored (if p then l else l') = if p then stored l else stored l' := by
  split <;> rfl

theorem length_vt (n : Int) : (stored [Store.printf ("vt".toList ++ printInt n)]).length ≤ 13 := by
  have := length_printInt n
  show (("vt".toList ++ printInt n) ++ []).length ≤ 13
  rw [List.append_nil, List.length_append]
  exact Nat.add_le_add (Nat.le_refl 2) this

theorem length_catL (s : String) (max : Nat) : (stored [Store.catL s max]).length ≤ max := by
  show (shown s max ++ []).length ≤ max
  rw [List.append_nil]
  exact length_shown s max

theorem length_optCatL (s : Option String) (max : Nat) :
    (stored (s.map fun s => Store.catL s max).toList).length ≤ max := by
  cases s with
  | none => exact Nat.zero_le _
  | some s => exact length_catL s max

theorem length_flag (p : Prop) [Decidable p] (c : Char) :
    (stored (if p then [Store.char c] else [])).length ≤ 1 := by
  split
  · exact Nat.le_refl 1
  · exact Nat.zero_le 1

/-- What is stored of an X session is the session as it is emitted. -/
theorem stored_xSess (fifoAllowNuke : Bool) (d : Option Display) {di : Display}
    (h : toInt di.serverVT = di.serverVT) :
    stored (storesXSess fifoAllowNuke d di) = emitXSessC fifoAllowNuke d di := by
  have hopt (s : Option String) : stored (s.map fun s => Store.catL s (CBUF / 5)).toList =
      shown (s.getD "") (CBUF / 5) := by
    cases s with
    | none => rfl
    | some s => exact List.append_nil _
  have hvt : stored (if di.serverVT ≠ 0 then [.printf ("vt".toList ++ printInt di.serverVT)] else []) =
      if di.serverVT ≠ 0 then "vt".toList ++ decimal di.serverVT else [] := by
    rw [printInt, h]
    split
    · exact List.append_nil _
    · rfl
  have hflag (p : Prop) [Decidable p] (c : Char) :
      stored (if p then [Store.char c] else []) = if p then [c] else [] := by
    split <;> rfl
  have hchar (c : Char) (l : List Store) : stored (.char c :: l) = c :: stored l := rfl
  have hcatL (s : String) (max : Nat) (l : List Store) :
      stored (.catL s max :: l) = shown s max ++ stored l := rfl
  have hnil : stored [] = [] := rfl
  unfold storesXSess emitXSessC
  simp only [stored_append, hvt, hflag, stored_ite, hopt, hchar, hcatL, hnil, List.append_assoc,
    List.cons_append, List.nil_append, List.append_nil]

/-- **X sessions** fit. -/
theorem xSess_inBuffer (fifoAllowNuke : Bool) (d : Option Display) (di : Display) :
    (Part.xSess fifoAllowNuke d di).InBuffer := by
  refine storeAll_of_lt ?_
  show 0 + (stored (storesXSess fifoAllowNuke d di)).length < CBUF
  have hname := length_catL (displayName di) (CBUF / 2)
  have hvt : (stored (if di.serverVT ≠ 0 then [Store.printf ("vt".toList ++ printInt di.serverVT)]
      else [])).length ≤ 13 := by
    split
    · exact length_vt _
    · exact Nat.zero_le _
  have hwho : (stored (if di.status = .remoteLogin then
      [.char ',', .catL (di.remoteHost.getD "") (CBUF / 3)]
      else (di.userName.map fun s => Store.catL s (CBUF / 5)).toList ++ [.char ','] ++
        (di.sessName.map fun s => Store.catL s (CBUF / 5)).toList)).length ≤
      2 * (CBUF / 5) + 1 := by
    split
    · have := length_catL (di.remoteHost.getD "") (CBUF / 3)
      show (',' :: stored [Store.catL (di.remoteHost.getD "") (CBUF / 3)]).length ≤ _
      rw [List.length_cons]
      exact Nat.le_trans (Nat.succ_le_succ this) (by decide)
    · have hu := length_optCatL di.userName (CBUF / 5)
      have hs := length_optCatL di.sessName (CBUF / 5)
      rw [stored_append, stored_append, List.length_append, List.length_append]
      show _ + 1 + _ ≤ _
      omega
  have hself := length_flag (d.map Display.id = some di.id) '*'
  have hnuke := length_flag (protectedX fifoAllowNuke d di = true) '!'
  have hhead : (stored [.char '\t', .catL (displayName di) (CBUF / 2), .char ',']).length =
      2 + (stored [Store.catL (displayName di) (CBUF / 2)]).length := by
    show ('\t' :: (shown (displayName di) (CBUF / 2) ++ [','])).length =
      2 + (shown (displayName di) (CBUF / 2) ++ []).length
    simp
    omega
  have hcomma : (stored [Store.char ',']).length = 1 := rfl
  rw [storesXSess]
  simp only [stored_append, List.length_append]
  rw [hhead, hcomma]
  have hconst : CBUF / 2 + (2 * (CBUF / 5) + 1) + 20 < CBUF := by decide
  omega

/-- **TTY sessions** fit. -/
theorem ttySess_inBuffer (fifoAllowNuke : Bool) (d : Option Display) (ut : UtEntry) :
    (Part.ttySess fifoAllowNuke d ut).InBuffer := by
  refine storeAll_of_lt ?_
  show 0 + (stored (storesTTYSess fifoAllowNuke d ut)).length <
    UT_LINESIZE + UT_NAMESIZE + UT_HOSTSIZE + 16
  have hwhere : (stored (if ut.host ≠ "" then [.char '@', .catL ut.host UT_HOSTSIZE]
      else if ttyToVT ut.line ≠ 0 then [.printf ("vt".toList ++ printInt (ttyToVT ut.line))]
      else [])).length ≤ UT_HOSTSIZE + 1 := by
    split
    · have := length_catL ut.host UT_HOSTSIZE
      show ('@' :: stored [Store.catL ut.host UT_HOSTSIZE]).length ≤ _
      rw [List.length_cons]
      exact Nat.succ_le_succ this
    · split
      · exact Nat.le_trans (length_vt _) (by decide)
      · exact Nat.zero_le _
  have hnuke := length_flag (protectedTTY fifoAllowNuke d ut = true) '!'
  have hline := length_shown ut.line UT_LINESIZE
  have huser := length_shown (ttyUser ut) UT_NAMESIZE
  have hhead : (stored [.char '\t', .catL ut.line UT_LINESIZE, .char ',']).length =
      2 + (shown ut.line UT_LINESIZE).length := by
    show ('\t' :: (shown ut.line UT_LINESIZE ++ [','])).length = _
    simp
    omega
  have htail : (stored [.char ',', .cat (shown (ttyUser ut) UT_NAMESIZE), .char ',', .char ',',
      .char 't']).length = 4 + (shown (ttyUser ut) UT_NAMESIZE).length := by
    show (',' :: (shown (ttyUser ut) UT_NAMESIZE ++ [',', ',', 't'])).length = _
    simp
    omega
  rw [storesTTYSess]
  simp only [stored_append, List.length_append]
  rw [hhead, htail]
  omega

theorem length_sdCat (delta : Int) (sdr : SdRec) :
    (stored (sdCat delta sdr)).length = sdLen delta sdr := by
  have hhow : (if sdr.how = SHUT_HALT then "halt,".toList else "reboot,".toList).length =
      if sdr.how = SHUT_HALT then 5 else 7 := by
    split <;> rfl
  have htime (time : Int) (t : Text) : (if time = TO_INF then Store.cat t
      else Store.printf (printTime delta time)).text.length =
      if time = TO_INF then t.length else (printTime delta time).length := by
    split <;> rfl
  unfold stored sdCat sdLen
  simp only [List.flatMap_cons, List.flatMap_nil, List.length_append, htime]
  simp only [Store.cat, Store.printf, hhow, List.length_append, List.length_cons, List.length_nil,
    String.length_toList]
  show _ + ((if sdr.start = TO_INF then 2 else _) +
    ((if sdr.timeout = TO_INF then 3 else _) + _)) = _
  omega

theorem status_inBuffer_iff (delta : Int) (sdRec : SdRec) (local' : Option SdRec) :
    (Part.status delta sdRec local').InBuffer ↔ (Part.status delta sdRec local').Short := by
  have hhead (p : Prop) [Decidable p] (t : Text) (sdr : SdRec) :
      (stored (if p then Store.cat t :: sdCat delta sdr else [])).length =
        if p then t.length + sdLen delta sdr else 0 := by
    split
    · rw [stored, List.flatMap_cons, ← stored, List.length_append, length_sdCat]
      rfl
    · rfl
  have hlocal : (stored (match local' with
      | some sdr => if sdr.how ≠ 0 then .cat "\tlocal,".toList :: sdCat delta sdr else []
      | none => [])).length =
      local'.elim 0 fun sdr => if sdr.how ≠ 0 then 7 + sdLen delta sdr else 0 := by
    cases local' with
    | none => rfl
    | some sdr => exact hhead _ _ sdr
  have hok : (stored [Store.char 'o', .char 'k']).length = 2 := rfl
  have hglobal : "\tglobal,".toList.length = 8 := rfl
  refine (storeAll_iff _ '\n').trans ?_
  show 0 + (stored (_ ++ _ ++ _)).length + 1 ≤ CBUF ↔ _ ≤ CBUF
  rw [stored_append, stored_append, List.length_append, List.length_append, hhead, hlocal, hok,
    hglobal]
  omega

/-- What is stored of a boot option is the option as it is emitted. -/
theorem stored_option (i : Nat) (opt : Text) :
    stored (storesOption i opt) = (if i ≠ 0 then [' '] else []) ++ escapeOption opt := by
  unfold storesOption
  rw [stored_append]
  congr 1
  · split <;> rfl
  · unfold stored escapeOption
    rw [List.flatMap_assoc]
    refine congrArg (opt.flatMap ·) (funext fun c => ?_)
    split <;> rfl

theorem length_escapeOption (opt : Text) :
    (escapeOption opt).length = opt.length + opt.count ' ' := by
  induction opt with
  | nil => rfl
  | cons c opt ih =>
    rw [escapeOption_cons, List.length_append, ih, List.length_cons, List.count_cons]
    by_cases hc : c = ' '
    · subst hc
      simp
      omega
    · simp [hc]
      omega

theorem option_inBuffer_iff (i : Nat) (opt : Text) :
    (Part.option i opt).InBuffer ↔ (Part.option i opt).Short := by
  have hplain : ∀ s ∈ storesOption i opt, s.nul = false := by
    intro s hs
    rcases List.mem_append.mp hs with hs | hs
    · split at hs
      · cases List.mem_singleton.mp hs
        rfl
      · cases hs
    · obtain ⟨c, _, hs⟩ := List.mem_flatMap.mp hs
      split at hs
      · rcases List.mem_cons.mp hs with rfl | hs
        · rfl
        · cases List.mem_singleton.mp hs
          rfl
      · cases List.mem_singleton.mp hs
        rfl
  refine (storeAll_plain hplain (Nat.zero_le _)).trans ?_
  rw [stored_option, List.length_append, length_escapeOption, Nat.zero_add]
  have hsep : (if i ≠ 0 then [' '] else []).length = if i ≠ 0 then 1 else 0 := by
    split <;> rfl
  rw [hsep]
  rfl

theorem not_inBuffer_of_long {opt : Text} (h : CBUF < opt.length + opt.count ' ') :
    ¬ (Part.option 0 opt).InBuffer := by
  rw [option_inBuffer_iff, Part.Short, if_neg (by decide)]
  omega

/-- The numbers of the default and the current option fit. -/
theorem options_inBuffer (dflt curr : Int) : (Part.options dflt curr).InBuffer := by
  have hd := length_printInt dflt
  have hc := length_printInt curr
  refine storeAll_of_lt ?_
  show 0 + (['\t'] ++ printInt dflt ++ ['\t'] ++ printInt curr ++ ['\n'] ++ []).length < CBUF
  simp only [List.length_append, List.length_cons, List.length_nil]
  have hconst : 25 < CBUF := by decide
  omega

/-- **The replies** stay in their buffers if and only if there is room for the names of the boot
options in them. -/
theorem inBuffer_iff (x : Part) : x.InBuffer ↔ x.Short := by
  cases x with
  | xSess fifoAllowNuke d di => exact iff_of_true (xSess_inBuffer fifoAllowNuke d di) trivial
  | ttySess fifoAllowNuke d ut => exact iff_of_true (ttySess_inBuffer fifoAllowNuke d ut) trivial
  | status delta sdRec local' => exact status_inBuffer_iff delta sdRec local'
  | option i opt => exact option_inBuffer_iff i opt
  | options dflt curr => exact iff_of_true (options_inBuffer dflt curr) trivial

namespace Sample

/-- A title with many blanks in it. -/
def title : Text := ['a'] ++ List.replicate 600 ' ' ++ ['b']

/-- A `menu.lst` with that title. -/
def grub : Boot.BootSystem where
  locate _ := true
  menu := some ⟨0, true, ["title ".toList ++ title]⟩
  cfg _ := none
  lilo := none

end Sample

/-- The options of a `menu.lst` do not all fit into the reply to `listbootoptions`. -/
theorem not_inBuffer : ∃ opts dflt curr v,
    Boot.getGrub Sample.grub .start = (.ok (opts, dflt, curr), v) ∧
      ¬ ∀ i opt, opts[i]? = some opt → (Part.option i opt).InBuffer := by
  refine ⟨[Sample.title], 0, -1, ⟨true, false, false, false, none⟩, by decide +kernel, fun h => ?_⟩
  have hlong : CBUF < Sample.title.length + Sample.title.count ' ' := by decide +kernel
  exact not_inBuffer_of_long hlong (h 0 Sample.title rfl)

end Kdm.Control
