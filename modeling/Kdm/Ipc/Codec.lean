import Kdm.Lib.Codec

/-!
# Talking to the helpers

The functions with which the daemon, the greeter and the config reader exchange integers, strings
and arrays (`process.c`, `kdm_greet.c`, `kdm_config.c`).  A pipe is a stream of bytes; an `int` is
four bytes, the lowest first.  A function that ends in `gErr` or `logPanic` has no result.
-/

namespace Kdm.Ipc

open Codec

abbrev Bytes := List UInt8

/-- A C string without its terminator. -/
abbrev CStr := { l : Bytes // 0 ∉ l }

/-- An array whose length is an `int`. -/
abbrev Arr := { l : Bytes // l.length < 2 ^ 31 }

/-- Which sizes can be allocated; `malloc` refuses what is larger than an object may be. -/
structure Heap where
  malloc : Nat → Bool
  huge : ∀ n, 2 ^ 63 ≤ n → malloc n = false

/-! ## Reading and writing -/

/-- The bytes of an `int`. -/
def word (v : BitVec 32) : Bytes :=
  [UInt8.ofNat v.toNat, UInt8.ofNat (v.toNat / 2 ^ 8), UInt8.ofNat (v.toNat / 2 ^ 16),
    UInt8.ofNat (v.toNat / 2 ^ 24)]

def ofWord (l : Bytes) : BitVec 32 :=
  BitVec.ofNat 32 (l.foldr (fun b n => b.toNat + 2 ^ 8 * n) 0)

/-- `gRead(buf, len)`. -/
def gRead (len : Nat) : Reader UInt8 Bytes := readN len

/-- `gWrite(buf, len)`; no `write` takes a negative count. -/
def gWrite (buf : Bytes) (len : BitVec 32) : Option Bytes :=
  if len.toInt < 0 then none else some (buf.take len.toNat)

def readInt : Reader UInt8 (BitVec 32) := (gRead 4).map ofWord

/-- The conversion of an `int` to `size_t`. -/
def sizeT (v : BitVec 32) : Nat := (v.toInt % 2 ^ 64).toNat

/-! ## Sending -/

def sendInt (val : BitVec 32) : Option Bytes := some (word val)

def sendArr (data : Arr) : Option Bytes :=
  (gWrite data.1 (BitVec.ofNat 32 data.1.length)).map (word (BitVec.ofNat 32 data.1.length) ++ ·)

def sendStr (buf : Option CStr) : Option Bytes :=
  match buf with
  | some s =>
    let len := BitVec.ofNat 32 (s.1.length + 1)
    (gWrite (s.1 ++ [0]) len).map (word len ++ ·)
  | none => some (word 0)

/-- The length is an argument, and the terminator is written on its own. -/
def sendNStr (buf : Arr) : Option Bytes :=
  let tlen := BitVec.ofNat 32 buf.1.length + 1
  (gWrite buf.1 (BitVec.ofNat 32 buf.1.length)).map fun b => word tlen ++ (b ++ [0])

namespace Backend

def gSendInt : BitVec 32 → Option Bytes := sendInt
def gSendArr : Arr → Option Bytes := sendArr
def gSendStr : Option CStr → Option Bytes := sendStr
def gSendNStr : Arr → Option Bytes := sendNStr

def _gSendStrArr (num : BitVec 32) (data : List (Option CStr)) : Option Bytes :=
  (sendAll ((data.take num.toInt.toNat).map gSendStr)).map (word num ++ ·)

/-- The strings are followed by a NULL. -/
def gSendArgv (argv : Option (List CStr)) : Option Bytes :=
  match argv with
  | some l => _gSendStrArr (BitVec.ofNat 32 l.length + 1) (l.map some ++ [none])
  | none => some (word 0)

end Backend

namespace Greet

def gSendInt : BitVec 32 → Option Bytes := sendInt
def gSendArr : Arr → Option Bytes := sendArr

/-- A NULL string is written as no bytes behind the length. -/
def gSendStr (buf : Option CStr) : Option Bytes :=
  let len := match buf with
    | some s => BitVec.ofNat 32 (s.1.length + 1)
    | none => 0
  let data := match buf with
    | some s => s.1 ++ [0]
    | none => []
  (gWrite data len).map (word len ++ ·)

end Greet

namespace Config

def gSendInt : BitVec 32 → Option Bytes := sendInt
def gSendStr : Option CStr → Option Bytes := sendStr
def gSendNStr : Arr → Option Bytes := sendNStr
def gSendArr : Arr → Option Bytes := sendArr

end Config

/-! ## Receiving -/

/-- An array behind its length, in memory of its own; `refused` lengths are returned without it. -/
def recvArr (heap : Heap) (refused : BitVec 32 → Bool) (size : BitVec 32 → Nat) :
    Reader UInt8 (BitVec 32 × Option Bytes) :=
  readInt.bind fun len =>
    if len == 0 || refused len then Reader.pure (len, none)
    else if heap.malloc (size len) then (gRead (size len)).map fun buf => (len, some buf)
    else fun _ => none

/-- An array of strings behind their number. -/
def recvStrArr (heap : Heap) (gRecvStr : Reader UInt8 (Option Bytes)) :
    Reader UInt8 (BitVec 32 × Option (List (Option Bytes))) :=
  readInt.bind fun num =>
    if num == 0 then Reader.pure (num, none)
    else if heap.malloc (sizeT num * 8 % 2 ^ 64) then
      (readAll (List.replicate num.toInt.toNat gRecvStr)).map fun argv => (num, some argv)
    else fun _ => none

namespace Backend

def gRecvInt : Reader UInt8 (BitVec 32) := readInt

/-- The length is unsigned. -/
def _gRecvArr (heap : Heap) : Reader UInt8 (BitVec 32 × Option Bytes) :=
  recvArr heap (fun len => decide (0x10000 < len.toNat)) (·.toNat)

def gRecvArr (heap : Heap) : Reader UInt8 (BitVec 32 × Option Bytes) := _gRecvArr heap

def gRecvStr (heap : Heap) : Reader UInt8 (Option Bytes) := (_gRecvArr heap).map (·.2)

/-- The array goes to a buffer of `cap` bytes, which must not overflow. -/
def _gRecvArrBuf (cap : Nat) : Reader UInt8 (BitVec 32 × Option Bytes) :=
  readInt.bind fun len =>
    if len != 0 && decide (len.toNat < 0x10000) then
      if len.toNat ≤ cap then (gRead len.toNat).map fun buf => (len, some buf) else fun _ => none
    else Reader.pure (len, none)

def gRecvArrBuf (cap : Nat) : Reader UInt8 (BitVec 32 × Option Bytes) := _gRecvArrBuf cap

def gRecvStrBuf (cap : Nat) : Reader UInt8 (BitVec 32 × Option Bytes) := _gRecvArrBuf cap

def gRecvStrArr (heap : Heap) : Reader UInt8 (BitVec 32 × Option (List (Option Bytes))) :=
  recvStrArr heap (gRecvStr heap)

def gRecvArgv (heap : Heap) : Reader UInt8 (Option (List (Option Bytes))) :=
  (gRecvStrArr heap).map (·.2)

end Backend

namespace Greet

def gRecvInt : Reader UInt8 (BitVec 32) := readInt

def igRecvArr (heap : Heap) : Reader UInt8 (BitVec 32 × Option Bytes) :=
  recvArr heap (fun _ => false) sizeT

def gRecvStr (heap : Heap) : Reader UInt8 (Option Bytes) := (igRecvArr heap).map (·.2)

def gRecvStrArr (heap : Heap) : Reader UInt8 (BitVec 32 × Option (List (Option Bytes))) :=
  recvStrArr heap (gRecvStr heap)

def gRecvArr (heap : Heap) : Reader UInt8 (BitVec 32 × Option Bytes) :=
  recvArr heap (fun _ => false) sizeT

end Greet

namespace Config

def gRecvInt : Reader UInt8 (BitVec 32) := readInt

def gRecvStr (heap : Heap) : Reader UInt8 (Option Bytes) :=
  gRecvInt.bind fun len =>
    if len == 0 then Reader.pure none
    else if heap.malloc (sizeT len) then (gRead (sizeT len)).map some
    else fun _ => none

end Config

end Kdm.Ipc
