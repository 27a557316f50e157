import CloRedis.Hiredis.Parser

/-!
`read.c`: the reader of replies, with the functions of `hiredis.c` that make
the objects and `sdsrange` of `sds.c`. The buffer is a list of bytes, of which
`len` is the length. The stack of tasks has the current task first. A pointer
to an object of the reply that is being built is the path that leads to it.
-/

namespace CloRedis

open Library

/-! ### Texts -/

/-- A conversion to `int`. -/
def toInt32 (n : Int) : Int := n.bmod (2 ^ 32)

theorem toInt32_of_lt {n : Int} (hlow : -2 ^ 31 ≤ n) (hhigh : n < 2 ^ 31) : toInt32 n = n :=
  Int.bmod_eq_of_le (by omega) (by omega)

def sdsrange (s : List Char) (start stop : Int) : List Char :=
  let len : Int := s.length
  if len = 0 then s
  else
    let start := if start < 0 then max 0 (toInt32 (len + start)) else start
    let stop := if stop < 0 then max 0 (toInt32 (len + stop)) else stop
    if stop < start then []
    else if toInt32 len ≤ start then []
    else
      let stop := if toInt32 len ≤ stop then toInt32 (len - 1) else stop
      if stop < start then [] else (s.drop start.toNat).take (stop - start + 1).toNat

/-- The loops of `seekNewline`, from a position on. -/
def seekNewlineFrom (len : Int) : Nat → List Char → Option Nat
  | _, [] => none
  | pos, c :: rest =>
      if (pos : Int) < len then
        if c = '\r' ∧ rest.head? = some '\n' then some pos
        else seekNewlineFrom len (pos + 1) rest
      else none

/-- `seekNewline`; its positions are of type `int`. -/
def seekNewline (s : List Char) : Option Nat :=
  seekNewlineFrom (toInt32 ((s.length : Int) - 1)) 0 s

/-- `chrtos` -/
def chrtos (byte : Char) : List Char :=
  let quote := Char.ofNat 34
  let backslash := Char.ofNat 92
  if byte = backslash ∨ byte = quote then [quote, backslash, byte, quote]
  else if byte = '\n' then [quote, backslash, 'n', quote]
  else if byte = '\r' then [quote, backslash, 'r', quote]
  else if byte = '\t' then [quote, backslash, 't', quote]
  else if byte = '\x07' then [quote, backslash, 'a', quote]
  else if byte = '\x08' then [quote, backslash, 'b', quote]
  else if ' ' ≤ byte ∧ byte ≤ '~' then [quote, byte, quote]
  else
    [quote, backslash, 'x', Nat.digitChar (byte.toNat % 256 / 16), Nat.digitChar (byte.toNat % 16),
      quote]

/-! ### Objects -/

/-- A `redisReply *` of the reply that is being built. -/
inductive ReplyNode where
  | null
  | reply (type : ReplyType) (integer : Int) (str : List Char) (element : List ReplyNode)

/-- What a program must not do. -/
inductive ReaderFault where
  | assertion
  | badPointer
  | stackOverflow
  deriving DecidableEq, Repr

/-- `parent->element[task->idx] = r`, where the parent is at a path. -/
def ReplyNode.setElement : ReplyNode → List Nat → Int → ReplyNode → Except ReaderFault ReplyNode
  | .null, _, _, _ => .error .badPointer
  | .reply type integer str element, [], idx, node =>
      if type ≠ .array then .error .assertion
      else if 0 ≤ idx ∧ idx.toNat < element.length then
        .ok (.reply type integer str (element.set idx.toNat node))
      else .error .badPointer
  | .reply type integer str element, i :: path, idx, node =>
      match element[i]? with
      | none => .error .badPointer
      | some child => (child.setElement path idx node).map fun child =>
          .reply type integer str (element.set i child)

/-! ### The reader -/

/-- `REDIS_READER_MAX_BUF` -/
def redisReaderMaxBuf : Nat := 1024 * 16

/-- `redisReadTask`. The type `-1` is `none`; the parent is the next task of
the stack. -/
structure ReadTask where
  type : Option ReplyType := none
  elements : Int := -1
  idx : Int
  obj : Option (List Nat) := none

structure RedisReader where
  err : Option RedisErr := none
  errstr : List Char := []
  buf : List Char := []
  pos : Nat := 0
  maxbuf : Nat := redisReaderMaxBuf
  rstack : List ReadTask := []
  reply : ReplyNode := .null

/-- What the allocator has for `redisReaderFeed`: the free space behind the
buffer, and whether there is memory for a new buffer and for this one to grow. -/
structure FeedMemory where
  avail : Nat := 0
  fresh : Bool := true
  grown : Bool := true

namespace RedisReader

/-- The bytes from the cursor on. -/
def unread (r : RedisReader) : List Char := r.buf.drop r.pos

/-- `__redisReaderSetError` -/
def setError (r : RedisReader) (type : RedisErr) (str : List Char) : RedisReader :=
  { r with err := some type, errstr := str.take 127, buf := [], pos := 0, rstack := [],
           reply := .null }

def setErrorProtocolByte (r : RedisReader) (byte : Char) : RedisReader :=
  r.setError .protocol (protocolByteText (chrtos byte))

def setErrorOOM (r : RedisReader) : RedisReader := r.setError .oom "Out of memory".toList

def readBytes (r : RedisReader) (bytes : Nat) : Option (List Char × RedisReader) :=
  if bytes ≤ r.buf.length - r.pos then
    some (r.unread.take bytes, { r with pos := r.pos + bytes })
  else none

def readLine (r : RedisReader) : Option (List Char × RedisReader) :=
  match seekNewline r.unread with
  | some len => some (r.unread.take len, { r with pos := r.pos + (len + 2) })
  | none => none

/-- `moveToNextTask`, on the stack. -/
def moveToNextTask : List ReadTask → Except ReaderFault (List ReadTask)
  | [] => .ok []
  | [_] => .ok []
  | cur :: prv :: rest =>
      if prv.type ≠ some .array then .error .assertion
      else if cur.idx = prv.elements - 1 then moveToNextTask (prv :: rest)
      else if cur.idx < prv.elements then
        .ok ({ cur with type := none, elements := -1, idx := cur.idx + 1 } :: prv :: rest)
      else .error .assertion

/-- The part the four functions that make objects share: without memory there
is none, and one whose task has a parent is set as its element. -/
def create (r : RedisReader) (memory : Bool) (node : ReplyNode) :
    Except ReaderFault (Option (List Nat × RedisReader)) :=
  if memory then
    match r.rstack with
    | cur :: parent :: _ =>
        match parent.obj with
        | none => .error .badPointer
        | some path => (r.reply.setElement path cur.idx node).map fun reply =>
            some (path ++ [cur.idx.toNat], { r with reply := reply })
    | _ => .ok (some ([], r))
  else .ok none

def createStringObject (r : RedisReader) (memory : Bool) (type : ReplyType) (str : List Char) :
    Except ReaderFault (Option (List Nat × RedisReader)) :=
  if type = .error ∨ type = .status ∨ type = .string then
    r.create memory (.reply type 0 str [])
  else .error .assertion

def createArrayObject (r : RedisReader) (memory : Bool) (elements : Nat) :
    Except ReaderFault (Option (List Nat × RedisReader)) :=
  r.create memory (.reply .array 0 [] (List.replicate elements .null))

def createIntegerObject (r : RedisReader) (memory : Bool) (value : Int) :
    Except ReaderFault (Option (List Nat × RedisReader)) :=
  r.create memory (.reply .integer value [] [])

def createNilObject (r : RedisReader) (memory : Bool) :
    Except ReaderFault (Option (List Nat × RedisReader)) :=
  r.create memory (.reply .nil 0 [] [])

/-- `if (r->ridx == 0) r->reply = obj` -/
def setRoot (r : RedisReader) (root : Bool) (node : ReplyNode) : RedisReader :=
  if root then { r with reply := node } else r

def atRoot (r : RedisReader) : Bool := r.rstack.length == 1

def next (r : RedisReader) : Except ReaderFault RedisReader :=
  (moveToNextTask r.rstack).map fun rstack => { r with rstack := rstack }

/-- What the four item functions do with an object: the out-of-memory error, or
the root is set and the next task begins. -/
def finish (r : RedisReader) (node : ReplyNode)
    (made : Except ReaderFault (Option (List Nat × RedisReader))) :
    Except ReaderFault (Bool × RedisReader) := do
  match ← made with
  | none => .ok (false, r.setErrorOOM)
  | some (_, r) =>
      let r ← (r.setRoot r.atRoot node).next
      .ok (true, r)

def processLineItem (r : RedisReader) (memory : Bool) (type : ReplyType) :
    Except ReaderFault (Bool × RedisReader) :=
  match r.readLine with
  | none => .ok (false, r)
  | some (p, r) =>
      if type = .integer then
        match string2ll p with
        | none => .ok (false, r.setError .protocol "Bad integer value".toList)
        | some v => r.finish (.reply .integer v [] []) (r.createIntegerObject memory v)
      else r.finish (.reply type 0 p []) (r.createStringObject memory type p)

/-- `processBulkItem`. Where no object can be made the buffer goes, so the cursor
may move first. -/
def processBulkItem (r : RedisReader) (memory : Bool) : Except ReaderFault (Bool × RedisReader) :=
  match seekNewline r.unread with
  | none => .ok (false, r)
  | some s =>
      match string2ll (r.unread.take s) with
      | none => .ok (false, r.setError .protocol "Bad bulk string length".toList)
      | some len =>
          if len < -1 then
            .ok (false, r.setError .protocol "Bulk string length out of range".toList)
          else if len = -1 then
            let r' := { r with pos := r.pos + (s + 2) }
            r'.finish (.reply .nil 0 [] []) (r'.createNilObject memory)
          else if r.pos + (s + 2 + (len.toNat + 2)) ≤ r.buf.length then
            let str := (r.unread.drop (s + 2)).take len.toNat
            let r' := { r with pos := r.pos + (s + 2 + (len.toNat + 2)) }
            r'.finish (.reply .string 0 str []) (r'.createStringObject memory .string str)
          else .ok (false, r)

/-- A task for the elements of an array, on top of its own. -/
def push (r : RedisReader) (elements : Int) (obj : List Nat) : Except ReaderFault RedisReader :=
  match r.rstack with
  | [] => .error .badPointer
  | cur :: below =>
      if r.rstack.length < 9 then
        .ok { r with
          rstack := { idx := 0 } :: { cur with elements := elements, obj := some obj } :: below }
      else .error .stackOverflow

def processMultiBulkItem (r : RedisReader) (memory : Bool) :
    Except ReaderFault (Bool × RedisReader) :=
  -- the current task is `rstack[8]`
  if r.rstack.length = 9 then
    .ok (false, r.setError .protocol
      "No support for nested multi bulk replies with depth > 7".toList)
  else
    match r.readLine with
    | none => .ok (false, r)
    | some (p, r) =>
        match string2ll p with
        | none => .ok (false, r.setError .protocol "Bad multi-bulk length".toList)
        | some elements =>
            if elements < -1 ∨ (intMax : Int) < elements then
              .ok (false, r.setError .protocol "Multi-bulk length out of range".toList)
            else if elements = -1 then
              r.finish (.reply .nil 0 [] []) (r.createNilObject memory)
            else if 0 < elements then do
              match ← r.createArrayObject memory elements.toNat with
              | none => .ok (false, r.setErrorOOM)
              | some (obj, r) =>
                  let root := r.atRoot
                  let r ← r.push elements obj
                  .ok (true, r.setRoot root
                    (.reply .array 0 [] (List.replicate elements.toNat .null)))
            else r.finish (.reply .array 0 [] []) (r.createArrayObject memory 0)

/-- The second half of `processItem`. -/
def processTyped (r : RedisReader) (memory : Bool) (type : ReplyType) :
    Except ReaderFault (Bool × RedisReader) :=
  match type with
  | .error | .status | .integer => r.processLineItem memory type
  | .string => r.processBulkItem memory
  | .array => r.processMultiBulkItem memory
  | .nil => .error .assertion

def processItem (r : RedisReader) (memory : Bool) : Except ReaderFault (Bool × RedisReader) :=
  match r.rstack with
  | [] => .error .badPointer
  | cur :: below =>
      match cur.type with
      | some type => r.processTyped memory type
      | none =>
          match r.readBytes 1 with
          | none => .ok (false, r)
          | some (p, r) =>
              match p.head? with
              | none => .error .badPointer
              | some byte =>
                  match replyType byte with
                  | none => .ok (false, r.setErrorProtocolByte byte)
                  | some type =>
                      processTyped { r with rstack := { cur with type := some type } :: below }
                        memory type

/-! ### What its users call -/

/-- The buffer is empty and quite large. -/
def Replaces (r : RedisReader) (m : FeedMemory) : Prop :=
  r.buf.length = 0 ∧ r.maxbuf ≠ 0 ∧ r.maxbuf < m.avail

instance (r : RedisReader) (m : FeedMemory) : Decidable (r.Replaces m) :=
  inferInstanceAs (Decidable (_ ∧ _ ∧ _))

/-- The part of `redisReaderFeed` that gives such a buffer back. It asserts that
there is memory for a new one. -/
def renew (r : RedisReader) (m : FeedMemory) : Except ReaderFault RedisReader :=
  if r.Replaces m then
    if m.fresh then .ok { r with buf := [], pos := 0 } else .error .assertion
  else .ok r

/-- `redisReaderFeed` -/
def feed (r : RedisReader) (chunk : List Char) (m : FeedMemory) :
    Except ReaderFault (Bool × RedisReader) :=
  if r.err.isSome then .ok (false, r)
  else if chunk = [] then .ok (true, r)
  else do
    let r ← r.renew m
    if m.grown then .ok (true, { r with buf := r.buf ++ chunk }) else .ok (false, r.setErrorOOM)

/-- One turn of the loop of `redisReaderGetReply`; `memory` says for every item
whether its object can be made. -/
def getReplyBody (memory : Nat → Bool) (s : Nat × RedisReader) :
    Except ReaderFault ((Nat × RedisReader) ⊕ RedisReader) :=
  match s.2.rstack with
  | [] => .ok (.inr s.2)
  | _ :: _ => do
      let (ok, r) ← s.2.processItem (memory s.1)
      .ok (if ok then .inl (s.1 + 1, r) else .inr r)

/-- The root task, when the stack is empty. -/
def start (r : RedisReader) : RedisReader :=
  if r.rstack = [] then { r with rstack := [{ idx := -1 }] } else r

/-- The consumed part of the buffer goes when it has become large. -/
def discard (r : RedisReader) : RedisReader :=
  if 1024 ≤ r.pos then { r with buf := sdsrange r.buf (toInt32 r.pos) (-1), pos := 0 } else r

/-- `redisReaderGetReply` -/
def getReply (r : RedisReader) (memory : Nat → Bool) :
    Except ReaderFault (Bool × ReplyNode × RedisReader) :=
  if r.err.isSome then .ok (false, .null, r)
  else if r.buf.length = 0 then .ok (true, .null, r)
  else do
    let r ← runLoop (attempt (getReplyBody memory)) (fun s => .ok s.2) (r.buf.length + 1)
      (0, r.start)
    if r.err.isSome then .ok (false, .null, r)
    else
      let r := r.discard
      if r.rstack = [] then .ok (true, r.reply, { r with reply := .null })
      else .ok (true, .null, r)

end RedisReader

end CloRedis
