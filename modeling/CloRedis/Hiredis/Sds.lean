import CloRedis.Hiredis.Reader

/-!
`sds.c`: a string as a header and the bytes of the block behind it. The fields
of the header have the width of its type, so what is stored in them is cut off.
Every read and write of the block is checked; what the allocator does is an
argument.
-/

namespace CloRedis

open Library

/-- What a program must not do. -/
inductive SdsFault where
  | badPointer
  | assertion
  deriving DecidableEq, Repr

/-- `SDS_TYPE_*` -/
inductive SdsType where
  | type5
  | type8
  | type16
  | type32
  | type64
  deriving DecidableEq, Repr

/-- How many values the field for the length has. -/
def SdsType.limit : SdsType → Nat
  | .type5 => 2 ^ 5
  | .type8 => 2 ^ 8
  | .type16 => 2 ^ 16
  | .type32 => 2 ^ 32
  | .type64 => 2 ^ 64

def sdsHdrSize : SdsType → Nat
  | .type5 => 1
  | .type8 => 3
  | .type16 => 5
  | .type32 => 9
  | .type64 => 17

def sdsReqType (stringSize : Nat) : SdsType :=
  if stringSize < 32 then .type5
  else if stringSize < 0xff then .type8
  else if stringSize < 0xffff then .type16
  else if stringSize < 0xffffffff then .type32
  else .type64

/-- `SDS_MAX_PREALLOC` -/
def sdsMaxPrealloc : Nat := 1024 * 1024

/-- A conversion to `size_t`. -/
def toSize (n : Int) : Nat := (n % 2 ^ 64).toNat

/-! ### Memory -/

/-- What the allocator does in a call: whether there is a block, and what is in
it at first. -/
structure Allocation where
  granted : Bool := true
  fill : Nat → Char := fun _ => '\x00'

/-- `s_malloc` of a header and some bytes: the bytes behind the header. No block
is as large as half the address space. -/
def Allocation.malloc (m : Allocation) (hdrlen size : Nat) : Option (List Char) :=
  if m.granted ∧ size < 2 ^ 63 then some ((List.range (size - hdrlen)).map m.fill) else none

/-- `s_realloc` -/
def Allocation.realloc (m : Allocation) (cells : List Char) (hdrlen size : Nat) :
    Option (List Char) :=
  if m.granted ∧ size < 2 ^ 63 then
    some ((List.range (size - hdrlen)).map fun i => cells.getD i (m.fill i))
  else none

/-- Bytes read from a block. -/
def readAt (cells : List Char) (pos len : Nat) : Except SdsFault (List Char) :=
  if pos + len ≤ cells.length then .ok ((cells.drop pos).take len) else .error .badPointer

/-- Bytes written into a block. -/
def writeAt (cells : List Char) (pos : Nat) (bytes : List Char) : Except SdsFault (List Char) :=
  if pos + bytes.length ≤ cells.length then
    .ok (cells.take pos ++ bytes ++ cells.drop (pos + bytes.length))
  else .error .badPointer

/-! ### The header -/

/-- A string: the fields of its header, and the bytes behind it. Type 5 has no
field `alloc`. -/
structure Sds where
  type : SdsType
  len : Nat
  alloc : Nat
  cells : List Char

namespace Sds

def sdsalloc (s : Sds) : Nat :=
  match s.type with
  | .type5 => s.len
  | _ => s.alloc

def sdsavail (s : Sds) : Nat :=
  match s.type with
  | .type5 => 0
  | .type32 => (((s.alloc : Int) - s.len) % 2 ^ 32).toNat
  | _ => toSize ((s.alloc : Int) - s.len)

def sdssetlen (s : Sds) (newlen : Nat) : Sds := { s with len := newlen % s.type.limit }

def sdssetalloc (s : Sds) (newlen : Nat) : Sds :=
  match s.type with
  | .type5 => s
  | _ => { s with alloc := newlen % s.type.limit }

/-- Bytes written behind the pointer of the string. -/
def store (s : Sds) (pos : Nat) (bytes : List Char) : Except SdsFault Sds :=
  (writeAt s.cells pos bytes).map fun cells => { s with cells := cells }

/-! ### Strings are made and grow -/

/-- The `memcpy` of what a string is made of, when it is made of something. -/
def copyInit (s : Sds) (init : Option (List Char)) (initlen : Nat) : Except SdsFault Sds :=
  match init with
  | none => .ok s
  | some bytes => do
      let bytes ← readAt bytes 0 initlen
      s.store 0 bytes

/-- `sdsnewlen`; `init` is the bytes it is made of, or `NULL`. -/
def sdsnewlen (m : Allocation) (init : Option (List Char)) (initlen : Nat) :
    Except SdsFault (Option Sds) :=
  let type := sdsReqType initlen
  let type := if type = .type5 ∧ initlen = 0 then .type8 else type
  let hdrlen := sdsHdrSize type
  match m.malloc hdrlen (toSize (hdrlen + initlen + 1)) with
  | none => .ok none
  | some cells => do
      let s : Sds := {
        type := type
        len := initlen % type.limit
        alloc := initlen % type.limit
        cells := if init.isNone then List.replicate cells.length '\x00' else cells }
      let s ← s.copyInit init initlen
      let s ← s.store initlen ['\x00']
      .ok (some s)

def sdsempty (m : Allocation) : Except SdsFault (Option Sds) := sdsnewlen m (some []) 0

/-- The string in a block of another size: with `realloc` when the header stays,
else in a new block. -/
def moveTo (m : Allocation) (s : Sds) (type : SdsType) (newlen : Nat) :
    Except SdsFault (Option Sds) :=
  let hdrlen := sdsHdrSize type
  let size := toSize (hdrlen + newlen + 1)
  if s.type = type then
    match m.realloc s.cells hdrlen size with
    | none => .ok none
    | some cells => .ok (some (sdssetalloc { s with cells := cells } newlen))
  else
    match m.malloc hdrlen size with
    | none => .ok none
    | some cells => do
        let bytes ← readAt s.cells 0 (s.len + 1)
        let cells ← writeAt cells 0 bytes
        let moved : Sds := { s with type := type, cells := cells }
        .ok (some (sdssetalloc (moved.sdssetlen s.len) newlen))

def sdsMakeRoomFor (m : Allocation) (s : Sds) (addlen : Nat) : Except SdsFault (Option Sds) :=
  if addlen ≤ s.sdsavail then .ok (some s)
  else
    let newlen := toSize (s.len + addlen)
    let newlen :=
      if newlen < sdsMaxPrealloc then toSize (newlen * 2) else toSize (newlen + sdsMaxPrealloc)
    let type := sdsReqType newlen
    moveTo m s (if type = .type5 then .type8 else type) newlen

def sdsRemoveFreeSpace (m : Allocation) (s : Sds) : Except SdsFault (Option Sds) :=
  moveTo m s (sdsReqType s.len) s.len

def sdscatlen (m : Allocation) (s : Sds) (t : List Char) : Except SdsFault (Option Sds) := do
  let curlen := s.len
  match ← sdsMakeRoomFor m s t.length with
  | none => .ok none
  | some s => do
      let s ← s.store curlen t
      let s ← (s.sdssetlen (toSize (curlen + t.length))).store (toSize (curlen + t.length)) ['\x00']
      .ok (some s)

def sdsgrowzero (m : Allocation) (s : Sds) (len : Nat) : Except SdsFault (Option Sds) := do
  let curlen := s.len
  if len ≤ curlen then .ok (some s)
  else
    match ← sdsMakeRoomFor m s (len - curlen) with
    | none => .ok none
    | some s => do
        let s ← s.store curlen (List.replicate (len - curlen + 1) '\x00')
        .ok (some (s.sdssetlen len))

/-- The room that `sdscpylen` makes. -/
def roomToCopy (m : Allocation) (s : Sds) (len : Nat) : Except SdsFault (Option Sds) :=
  if s.sdsalloc < len then sdsMakeRoomFor m s (toSize ((len : Int) - s.len)) else .ok (some s)

def sdscpylen (m : Allocation) (s : Sds) (t : List Char) : Except SdsFault (Option Sds) := do
  match ← roomToCopy m s t.length with
  | none => .ok none
  | some s => do
      let s ← s.store 0 t
      let s ← s.store t.length ['\x00']
      .ok (some (s.sdssetlen t.length))

/-! ### Strings get shorter -/

def sdsclear (s : Sds) : Except SdsFault Sds := (s.sdssetlen 0).store 0 ['\x00']

/-- The `memmove` to the front, when there is something to move. -/
def moveFront (s : Sds) (pos newlen : Nat) : Except SdsFault Sds :=
  if pos ≠ 0 ∧ newlen ≠ 0 then do
    let bytes ← readAt s.cells pos newlen
    s.store 0 bytes
  else .ok s

/-- The bytes from a position on are moved to the front, and the string ends
behind them. -/
def keep (s : Sds) (pos newlen : Nat) : Except SdsFault Sds := do
  let s ← s.moveFront pos newlen
  let s ← s.store newlen ['\x00']
  .ok (s.sdssetlen newlen)

/-- `sdsrange` in the block. -/
def sdsrange (s : Sds) (start stop : Int) : Except SdsFault Sds :=
  let len : Int := s.len
  if len = 0 then .ok s
  else
    let start := if start < 0 then max 0 (toInt32 (len + start)) else start
    let stop := if stop < 0 then max 0 (toInt32 (len + stop)) else stop
    if stop < start then s.keep 0 0
    else if toInt32 len ≤ start then s.keep start.toNat 0
    else
      let stop := if toInt32 len ≤ stop then toInt32 (len - 1) else stop
      s.keep start.toNat (if stop < start then 0 else (stop - start + 1).toNat)

/-- `strchr(cset, c)` also finds the terminator. -/
def inCset (cset : List Char) (c : Char) : Bool := c = '\x00' || (cText cset).contains c

def sdstrim (s : Sds) (cset : List Char) : Except SdsFault Sds := do
  let bytes ← readAt s.cells 0 s.len
  let skipped := (bytes.takeWhile (inCset cset)).length
  let behind := ((bytes.drop (skipped + 1)).reverse.takeWhile (inCset cset)).length
  s.keep skipped (s.len - skipped - behind)

/-- What `sdsIncrLen` asserts. `-incr` is an `int` as well, and is compared as an
unsigned number. -/
def incrFits (s : Sds) (incr : Int) : Bool :=
  let back := toInt32 (-incr)
  match s.type with
  | .type5 => (0 < incr && toInt32 (s.len + incr) < 32) || (incr < 0 && back % 2 ^ 32 ≤ s.len)
  | .type8 | .type16 =>
      (0 ≤ incr && incr ≤ (s.alloc : Int) - s.len) || (incr < 0 && back % 2 ^ 32 ≤ s.len)
  | .type32 =>
      (0 ≤ incr && incr ≤ ((s.alloc : Int) - s.len) % 2 ^ 32) ||
        (incr < 0 && back % 2 ^ 32 ≤ s.len)
  | .type64 =>
      (0 ≤ incr && incr ≤ ((s.alloc : Int) - s.len) % 2 ^ 64) ||
        (incr < 0 && back % 2 ^ 64 ≤ s.len)

/-- `sdsIncrLen`; its argument is taken as an `int`. -/
def sdsIncrLen (s : Sds) (incr : Int) : Except SdsFault Sds :=
  let incr := toInt32 incr
  if s.incrFits incr then
    let len := ((s.len + incr) % s.type.limit).toNat
    ({ s with len := len } : Sds).store len ['\x00']
  else .error .assertion

/-- `sdsupdatelen`; the length of the text is taken as an `int`. -/
def sdsupdatelen (s : Sds) : Except SdsFault Sds :=
  if '\x00' ∈ s.cells then .ok (s.sdssetlen (toSize (toInt32 (cText s.cells).length)))
  else .error .badPointer

end Sds

end CloRedis
