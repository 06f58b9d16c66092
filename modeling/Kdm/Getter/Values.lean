import Kdm.Ipc.Block
import Mathlib.Data.List.DropRight

/-!
# The values of the configuration

What the config reader makes of the entries of `kdmrc` (`kdm_config.c`).  A request of the daemon
names some sections; every key in them gets the value of the best entry, of a rule that overrides
it, or its default.  The values are collected with the room that they will need.

The union of the source is a family over the type of the value, and a key carries the proof that
its default can be converted.
-/

namespace Kdm.Getter

open Codec Ipc

/-! ## Keys -/

def C_TYPE_MASK : BitVec 32 := 0x0f000000
def C_TYPE_INT : BitVec 32 := 0x00000000
def C_TYPE_STR : BitVec 32 := 0x01000000
def C_TYPE_ARGV : BitVec 32 := 0x02000000
def C_PRIVATE : BitVec 32 := 0xf0000000

def C_MTYPE_MASK : BitVec 32 := 0x30000000
def C_PATH : BitVec 32 := 0x10000000
def C_BOOL : BitVec 32 := 0x10000000
def C_ENUM : BitVec 32 := 0x20000000
def C_GRP : BitVec 32 := 0x30000000
def C_INTERNAL : BitVec 32 := 0x40000000
def C_CONFIG : BitVec 32 := 0x80000000

/-- The type of a value. -/
inductive Ty where
  | int
  | str
  | argv
  deriving DecidableEq, Repr

/-- The type that an id asks for. -/
def tyOf (id : BitVec 32) : Option Ty :=
  if id &&& C_TYPE_MASK = C_TYPE_INT then some .int
  else if id &&& C_TYPE_MASK = C_TYPE_STR then some .str
  else if id &&& C_TYPE_MASK = C_TYPE_ARGV then some .argv
  else none

/-- The private bits do not matter for the type. -/
@[simp] theorem tyOf_public (id : BitVec 32) : tyOf (id &&& ~~~C_PRIVATE) = tyOf id := by
  have h : id &&& ~~~C_PRIVATE &&& C_TYPE_MASK = id &&& C_TYPE_MASK := by
    rw [BitVec.and_assoc]
    rfl
  unfold tyOf
  rw [h]

/-- A value; the terminator of a string is not part of it. -/
inductive Value : Ty → Type where
  | num (num : BitVec 32) : Value .int
  | str (ptr : Arr) : Value .str
  | argv (ptr : List Arr) : Value .argv

/-! ## Conversion -/

def isspace (c : UInt8) : Bool := c == 32 || (9 ≤ c && c ≤ 13)

def tolower (c : UInt8) : UInt8 := if 65 ≤ c && c ≤ 90 then c + 32 else c

def ascii (s : String) : Bytes := s.toList.map fun c => UInt8.ofNat c.toNat

/-- The value of a digit. -/
def digit (c : UInt8) : Option Nat :=
  if 48 ≤ c && c ≤ 57 then some (c.toNat - 48)
  else if 97 ≤ tolower c && tolower c ≤ 122 then some ((tolower c).toNat - 87)
  else none

/-- The digits of a number to `base`, and whether there are any. -/
def digits (base : Nat) (l : Bytes) : Option Nat :=
  let ds := ((l.map digit).takeWhile fun d => d.any (· < base)).filterMap id
  if ds = [] then none else some (ds.foldl (fun n d => base * n + d) 0)

/-- `sscanf(buf, "%i", ..)`: blanks, a sign, and a number to base 8, 10 or 16; a `long` that is
too large is clipped, and an `int` is what remains of it. -/
def scanInt (buf : Bytes) : Option (BitVec 32) :=
  let l := buf.dropWhile isspace
  let neg := l.head? == some 45
  let l := if neg || l.head? == some 43 then l.tail else l
  let n := match l with
    | 48 :: x :: l' => if tolower x = 120 then (digits 16 l').or (some 0) else digits 8 l
    | 48 :: _ => digits 8 l
    | _ => digits 10 l
  n.map fun n =>
    BitVec.ofInt 32 (if neg then max (-(n : Int)) (-2 ^ 63) else min (n : Int) (2 ^ 63 - 1))

/-- The elements of a list are separated by commas; it ends before the first one that is blank. -/
def elements (val : Bytes) : List Bytes :=
  let l := val.dropWhile isspace
  let e := l.takeWhile (· != 44)
  if e = [] then []
  else e.rdropWhile isspace :: elements (l.drop (e.length + 1))
termination_by val.length
decreasing_by
  have he : e ≠ [] := by assumption
  have hl : l.length ≤ val.length := (List.dropWhile_suffix _).length_le
  have hle : e.length ≤ l.length := (List.takeWhile_prefix _).length_le
  have hpos : 0 < e.length := List.length_pos_iff.mpr he
  show (l.drop (e.length + 1)).length < val.length
  rw [List.length_drop]
  omega

theorem length_of_mem_elements {val w : Bytes} (h : w ∈ elements val) : w.length ≤ val.length := by
  induction val using elements.induct with
  | case1 val l e he =>
    rw [elements, if_pos he] at h
    exact absurd h List.not_mem_nil
  | case2 val l e he ih =>
    rw [elements, if_neg he] at h
    have hl : l.length ≤ val.length := (List.dropWhile_suffix _).length_le
    have hle : e.length ≤ l.length := (List.takeWhile_prefix _).length_le
    rcases List.mem_cons.mp h with rfl | h
    · have hr : (e.rdropWhile isspace).length ≤ e.length := (List.rdropWhile_prefix _ _).length_le
      exact Nat.le_trans hr (Nat.le_trans hle hl)
    · have hd := ih h
      rw [List.length_drop] at hd
      exact Nat.le_trans hd (Nat.le_trans (Nat.sub_le _ _) hl)

variable (getgrnam : Bytes → Option (BitVec 32))

def convertInt (id : BitVec 32) (val : Bytes) (eopts : List Bytes) : Except String (BitVec 32) :=
  -- the buffer has room for 79 characters, and a zero in it ends the string
  let buf := ((val.take 79).map tolower).takeWhile (· != 0)
  if id &&& C_MTYPE_MASK = C_BOOL then
    if buf ∈ ["true", "on", "yes", "1"].map ascii then .ok 1
    else if buf ∈ ["false", "off", "no", "0"].map ascii then .ok 0
    else .error "boolean"
  else if id &&& C_MTYPE_MASK = C_ENUM then
    match eopts.findIdx? (· == val) with
    | some i => .ok (BitVec.ofNat 32 i)
    | none => .error "option"
  else
    match if id &&& C_MTYPE_MASK = C_GRP then getgrnam buf else none with
    | some gid => .ok gid
    | none =>
      match scanInt buf with
      | some n => .ok n
      | none => .error "integer"

/-- A slash at the end of a path is cut off. -/
def convertStr (id : BitVec 32) (val : Arr) : Arr :=
  if id &&& C_MTYPE_MASK = C_PATH ∧ val.1.getLast? = some 47 then
    ⟨val.1.dropLast, by rw [List.length_dropLast]; exact Nat.lt_of_le_of_lt (Nat.sub_le _ _) val.2⟩
  else val

def convertArgv (val : Arr) : List Arr :=
  (elements val.1).pmap Subtype.mk fun _ hw => Nat.lt_of_le_of_lt (length_of_mem_elements hw) val.2

def convertValue (id : BitVec 32) (val : Arr) (eopts : List Bytes) :
    (ty : Ty) → Except String (Value ty)
  | .int => (convertInt getgrnam id val.1 eopts).map .num
  | .str => .ok (.str (convertStr id val))
  | .argv => .ok (.argv (convertArgv val))

/-! ## The variables of the config reader -/

inductive Var : Ty → Type where
  | xdmcpEnable : Var .int
  | noPassEnable : Var .int
  | autoLoginEnable : Var .int
  | xaccess : Var .str
  | dummy : Var .str

/-- Static variables start as zeros. -/
structure Vars where
  VxdmcpEnable : BitVec 32 := 0
  VnoPassEnable : BitVec 32 := 0
  VautoLoginEnable : BitVec 32 := 0
  VXaccess : Option Arr := none
  Vdummy : Option Arr := none

def Vars.set (vars : Vars) : {ty : Ty} → Var ty → Value ty → Vars
  | _, .xdmcpEnable, .num n => { vars with VxdmcpEnable := n }
  | _, .noPassEnable, .num n => { vars with VnoPassEnable := n }
  | _, .autoLoginEnable, .num n => { vars with VautoLoginEnable := n }
  | _, .xaccess, .str s => { vars with VXaccess := some s }
  | _, .dummy, .str s => { vars with Vdummy := some s }

/-- What goes with a key: the names of an enumeration, the variable it is stored in, or the
function that may decide its value. -/
inductive EntPtr : Ty → Type where
  | null {ty : Ty} : EntPtr ty
  | eopts (opts : List Bytes) : EntPtr .int
  | var {ty : Ty} (v : Var ty) : EntPtr ty
  | PrequestPort : EntPtr .int
  | PnoPassUsers : EntPtr .argv
  | PautoLoginX : EntPtr .str

def EntPtr.options : {ty : Ty} → EntPtr ty → List Bytes
  | _, .eopts opts => opts
  | _, _ => []

/-- The flags of an id say what its pointer is. -/
def EntPtr.Fits (id : BitVec 32) : {ty : Ty} → EntPtr ty → Prop
  | _, .var _ => id &&& C_INTERNAL ≠ 0 ∧ id &&& C_MTYPE_MASK ≠ C_ENUM
  | _, .eopts _ => id &&& C_INTERNAL = 0 ∧ id &&& C_MTYPE_MASK = C_ENUM
  | _, _ => id &&& C_INTERNAL = 0 ∧ id &&& C_MTYPE_MASK ≠ C_ENUM

def emptyStr : Value .str := .str ⟨[], by decide⟩
def emptyArgv : Value .argv := .argv []

/-- The value that the function of a key decides on. -/
def EntPtr.call (vars : Vars) : {ty : Ty} → EntPtr ty → Option (Value ty)
  | _, .PrequestPort => if vars.VxdmcpEnable = 0 then some (.num 0) else none
  | _, .PnoPassUsers => if vars.VnoPassEnable = 0 then some emptyArgv else none
  | _, .PautoLoginX => if vars.VautoLoginEnable = 0 then some emptyStr else none
  | _, _ => none

/-- A key. -/
structure Ent where
  id : BitVec 32
  ty : Ty
  ptr : EntPtr ty
  dflt : Arr
  ty_ok : tyOf id = some ty
  ptr_ok : ptr.Fits id
  dflt_ok : ∀ groups, (convertValue groups id dflt ptr.options ty).isOk

abbrev Sect := List Ent

/-! ## The configuration file -/

structure Entry where
  id : BitVec 32
  val : Arr

/-- A section for displays has a host, a number and a class. -/
structure DSpec where
  dhost : Bytes
  dnum : Bytes
  dclass : Bytes

structure Section where
  dspec : Option DSpec
  entries : List Entry

def Section.find (sec : Section) (id : BitVec 32) : Option Entry :=
  sec.entries.find? (·.id == id)

/-- The state of the config reader. -/
structure Config where
  rootsec : List Section
  getgrnam : Bytes → Option (BitVec 32)

def findGEnt (rootsec : List Section) (id : BitVec 32) : Option Entry :=
  (rootsec.filter (·.dspec.isNone)).findSome? (·.find id)

/-- How well a section matches a display: class, number and host. -/
def score (sec dspec : DSpec) : Option Nat := do
  let cls ← if sec.dclass = [42] then some 0 else if sec.dclass = dspec.dclass then some 1 else none
  let num ← if sec.dnum = [42] then some 0 else if sec.dnum = dspec.dnum then some 2 else none
  let host ←
    if sec.dhost = [42] then some 0
    else if sec.dhost = [43] then if dspec.dhost ≠ [] then some 4 else none
    else if sec.dhost.head? = some 46 then
      if sec.dhost.length < dspec.dhost.length ∧ sec.dhost <:+ dspec.dhost then some 8 else none
    else if sec.dhost = dspec.dhost then some 12 else none
  return cls + num + host

/-- The entry of the section that matches best; of equal ones the first. -/
def findDEnt (rootsec : List Section) (id : BitVec 32) (dspec : DSpec) : Option Entry :=
  (rootsec.foldl (fun best cursec =>
    match cursec.dspec.bind (score · dspec) with
    | none => best
    | some score =>
      if best.all fun b => decide (b.1 < score) then
        match cursec.find id with
        | some curent => some (score, curent)
        | none => best
      else best) (none : Option (Nat × Entry))).map (·.2)

/-- A value that cannot be converted is replaced by the default. -/
def getValue (cf : Config) (et : Ent) (dspec : Option DSpec) : Value et.ty :=
  let convert := fun val => convertValue cf.getgrnam et.id val et.ptr.options et.ty
  let ent := match dspec with
    | some dspec => findDEnt cf.rootsec et.id dspec
    | none => findGEnt cf.rootsec et.id
  match ent.bind fun ent => (convert ent.val).toOption with
  | some val => val
  | none => (convert et.dflt).toOption.get (by
      have h := et.dflt_ok cf.getgrnam
      cases he : convert et.dflt with
      | ok v => rfl
      | error e =>
        rw [show convertValue cf.getgrnam et.id et.dflt et.ptr.options et.ty = .error e from he] at h
        cases h)

/-! ## Collecting the values -/

/-- The characters of a value, with the terminators. -/
def Value.chars : {ty : Ty} → Value ty → Nat
  | _, .num _ => 0
  | _, .str ptr => ptr.1.length + 1
  | _, .argv ptr => (ptr.map (·.1.length + 1)).sum

/-- The pointers of a value, with the NULL at the end. -/
def Value.ptrs : {ty : Ty} → Value ty → Nat
  | _, .num _ => 0
  | _, .str _ => 0
  | _, .argv ptr => ptr.length + 1

structure Val where
  id : BitVec 32
  ty : Ty
  val : Value ty
  ty_ok : tyOf id = some ty

/-- The collected values, and the counts that are kept with them. -/
structure ValArr where
  ents : List Val
  nents : BitVec 32
  nchars : BitVec 32
  nptrs : BitVec 32
  nents_eq : nents = BitVec.ofNat 32 ents.length
  nchars_eq : nchars = BitVec.ofNat 32 (ents.map (·.val.chars)).sum
  nptrs_eq : nptrs = BitVec.ofNat 32 (ents.map (·.val.ptrs)).sum

def ValArr.empty : ValArr := ⟨[], 0, 0, 0, rfl, rfl, rfl⟩

def addValue (va : ValArr) (v : Val) : ValArr where
  ents := va.ents ++ [v]
  nents := va.nents + 1
  nchars := va.nchars + BitVec.ofNat 32 v.val.chars
  nptrs := va.nptrs + BitVec.ofNat 32 v.val.ptrs
  nents_eq := by
    rw [va.nents_eq, List.length_append, List.length_singleton]
    exact (BitVec.ofNat_add ..).symm
  nchars_eq := by
    rw [va.nchars_eq, List.map_append, List.sum_append, BitVec.ofNat_add]
    rfl
  nptrs_eq := by
    rw [va.nptrs_eq, List.map_append, List.sum_append, BitVec.ofNat_add]
    rfl

/-- One key of a section. -/
def copyValue (cf : Config) (dspec : Option DSpec) (isconfig : BitVec 32) (st : Vars × ValArr)
    (et : Ent) : Vars × ValArr :=
  if et.id &&& C_CONFIG ≠ isconfig then st
  else match et.ptr with
    | .var v => (st.1.set v (getValue cf et dspec), st.2)
    | ptr =>
      let val := (ptr.call st.1).getD (getValue cf et dspec)
      (st.1, addValue st.2 ⟨et.id, et.ty, val, et.ty_ok⟩)

def copyValues (cf : Config) (st : Vars × ValArr) (sec : Sect) (dspec : Option DSpec)
    (isconfig : BitVec 32) : Vars × ValArr :=
  sec.foldl (copyValue cf dspec isconfig) st

/-- The sections of the config reader. -/
structure Sects where
  secGeneral : Sect
  secXdmcp : Sect
  secShutdown : Sect
  sec_Core : Sect
  sec_Greeter : Sect

/-- What the daemon asks for: the global values, or those of a display. -/
inductive Request where
  | gGlobal
  | gDisplay (dspec : DSpec)

def getConf (cf : Config) (secs : Sects) (vars : Vars) : Request → Vars × ValArr
  | .gGlobal =>
    let st := copyValues cf (vars, .empty) secs.secGeneral none 0
    let st := copyValues cf st secs.secXdmcp none 0
    copyValues cf st secs.secShutdown none 0
  | .gDisplay dspec =>
    let st := copyValues cf (vars, .empty) secs.sec_Core (some dspec) 0
    copyValues cf st secs.sec_Greeter (some dspec) 0

/-! ## Sending them -/

def Value.send : {ty : Ty} → Value ty → List (Option Bytes)
  | _, .num n => [Config.gSendInt n]
  | _, .str ptr => [Config.gSendNStr ptr]
  | _, .argv ptr => Config.gSendInt (BitVec.ofNat 32 ptr.length) :: ptr.map Config.gSendNStr

def sendValue (v : Val) : Option Bytes :=
  sendAll (Config.gSendInt (v.id &&& ~~~C_PRIVATE) :: v.val.send)

def sendValues (va : ValArr) : Option Bytes :=
  sendAll ([Config.gSendInt va.nents, Config.gSendInt va.nptrs, Config.gSendInt 0,
    Config.gSendInt va.nchars] ++ va.ents.map sendValue)

end Kdm.Getter
