import CloRedis.Hiredis.Template

/-!
The blocking context of `hiredis.c` at the level of bytes: commands wait in the
output buffer, `write` takes a part of it and `read` brings a part of the
replies. What the system calls and the allocator do during a call is an
argument of the call; a call whose script ends before it returns has not
returned.
-/

namespace CloRedis

open Library

/-- How `write` returns; it takes no more bytes than there are. When it takes all,
`fresh` says whether there is memory for a new buffer. -/
inductive WriteResult where
  | interrupted
  | failed (text : List Char)
  | wrote (count : Nat) (fresh : Bool := true)

/-- How `read` returns. -/
inductive ReadResult where
  | interrupted
  | failed (text : List Char)
  | closed
  | bytes (chunk : List Char)

/-- One turn of the reading loop, with what the allocator does in it. -/
structure Arrival where
  result : ReadResult
  buffer : FeedMemory := {}
  memory : Nat → Bool := fun _ => true

/-- The outside during a command. -/
structure Traffic where
  grown : Bool := true
  memory : Nat → Bool := fun _ => true
  writes : List WriteResult := []
  reads : List Arrival := []

/-- `redisContext` with `REDIS_BLOCK`. `sent` and `arrived` are all the bytes that
went through the socket. -/
structure BlockingContext where
  err : Int := 0
  errstr : List Char := []
  obuf : List Char := []
  reader : RedisReader := {}
  sent : List Char := []
  arrived : List Char := []

namespace BlockingContext

/-- `__redisSetError` -/
def setError (c : BlockingContext) (e : RedisErr) (str : List Char) : BlockingContext :=
  { c with err := e.code, errstr := str.take 127 }

/-- `__redisSetError(c,c->reader->err,c->reader->errstr)` -/
def setReaderError (c : BlockingContext) : BlockingContext :=
  match c.reader.err with
  | some e => c.setError e c.reader.errstr
  | none => { c with err := 0, errstr := c.reader.errstr }

/-- `redisBufferWrite` for a buffer with bytes. A buffer that is all written is
freed, and the length of the new one is read without a test for `NULL`. -/
def writeObuf (c : BlockingContext) : WriteResult → Except ReaderFault (Bool × BlockingContext)
  | .interrupted => .ok (true, c)
  | .failed text => .ok (false, c.setError .io text)
  | .wrote count fresh =>
      let n := min count c.obuf.length
      let c := { c with sent := c.sent ++ c.obuf.take n }
      if n = 0 then .ok (true, c)
      else if (n : Int) = toInt32 c.obuf.length then
        if fresh then .ok (true, { c with obuf := [] }) else .error .badPointer
      else .ok (true, { c with obuf := sdsrange c.obuf (toInt32 n) (-1) })

/-- The first loop of `redisGetReply`: `redisBufferWrite` until the buffer is
empty. -/
def writeAll (c : BlockingContext) :
    List WriteResult → Except ReaderFault (Option (Bool × BlockingContext))
  | [] =>
      .ok (if c.err ≠ 0 then some (false, c) else if c.obuf = [] then some (true, c) else none)
  | w :: writes =>
      if c.err ≠ 0 then .ok (some (false, c))
      else if c.obuf = [] then .ok (some (true, c))
      else do
        match ← c.writeObuf w with
        | (false, c) => .ok (some (false, c))
        | (true, c) => c.writeAll writes

def redisBufferRead (c : BlockingContext) (a : Arrival) :
    Except ReaderFault (Bool × BlockingContext) :=
  if c.err ≠ 0 then .ok (false, c)
  else
    match a.result with
    | .interrupted => .ok (true, c)
    | .failed text => .ok (false, c.setError .io text)
    | .closed => .ok (false, c.setError .eof "Server closed the connection".toList)
    | .bytes chunk =>
        (c.reader.feed chunk a.buffer).map fun
          | (true, r) => (true, { c with reader := r, arrived := c.arrived ++ chunk })
          | (false, r) =>
              (false, setReaderError { c with reader := r, arrived := c.arrived ++ chunk })

def redisGetReplyFromReader (c : BlockingContext) (memory : Nat → Bool) :
    Except ReaderFault (Bool × ReplyNode × BlockingContext) :=
  (c.reader.getReply memory).map fun (ok, reply, r) =>
    let c := { c with reader := r }
    if ok then (true, reply, c) else (false, .null, c.setReaderError)

/-- The second loop of `redisGetReply`. -/
def readUntilReply (c : BlockingContext) :
    List Arrival → Except ReaderFault (Option (ReplyNode × BlockingContext))
  | [] => .ok none
  | a :: reads => do
      match ← c.redisBufferRead a with
      | (false, c) => .ok (some (.null, c))
      | (true, c) =>
          match ← c.redisGetReplyFromReader a.memory with
          | (false, _, c) => .ok (some (.null, c))
          | (true, .null, c) => c.readUntilReply reads
          | (true, reply, c) => .ok (some (reply, c))

def redisGetReply (c : BlockingContext) (t : Traffic) :
    Except ReaderFault (Option (ReplyNode × BlockingContext)) := do
  match ← c.redisGetReplyFromReader t.memory with
  | (false, _, c) => .ok (some (.null, c))
  | (true, .null, c) =>
      match ← c.writeAll t.writes with
      | none => .ok none
      | some (false, c) => .ok (some (.null, c))
      | some (true, c) => c.readUntilReply t.reads
  | (true, reply, c) => .ok (some (reply, c))

/-- `redisvAppendCommand`, behind the formatting. -/
def redisvAppendCommand (c : BlockingContext) (formatted : Formatted) (grown : Bool) :
    Bool × BlockingContext :=
  match formatted with
  | .error code =>
      if code = -1 then (false, c.setError .oom "Out of memory".toList)
      else (false, c.setError .other "Invalid format string".toList)
  | .command cmd _ =>
      if grown then (true, { c with obuf := c.obuf ++ cmd })
      else (false, c.setError .oom "Out of memory".toList)

/-- `redisvCommand` -/
def redisvCommand (c : BlockingContext) (formatted : Formatted) (t : Traffic) :
    Except ReaderFault (Option (ReplyNode × BlockingContext)) :=
  match c.redisvAppendCommand formatted t.grown with
  | (false, c) => .ok (some (.null, c))
  | (true, c) => c.redisGetReply t

end BlockingContext

end CloRedis
