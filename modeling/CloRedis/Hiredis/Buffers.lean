import CloRedis.Hiredis.Delivery
import CloRedis.Hiredis.Strings

/-!
The reader over the string that is its buffer. What it holds is the block that
`sds.c` manages: bytes are appended with `sdscatlen`, what is consumed goes with
`sdsrange`, a large empty buffer is given back, and an error frees it. Sessions
with it are sessions of the reader over a list of bytes.
-/

namespace CloRedis

open Library

inductive HeldFault where
  | reader (e : ReaderFault)
  | buffer (e : SdsFault)
  deriving DecidableEq, Repr

namespace RedisReader

/-- `redisReaderFeed` gives an empty buffer back when it is large. It asserts
that there is memory for a new one. -/
def renewHeld (fresh : Allocation) (r : RedisReader) (s : Sds) :
    Except SdsFault (RedisReader × Sds) := do
  if s.len = 0 ∧ r.maxbuf ≠ 0 ∧ r.maxbuf < s.sdsavail then
    match ← Sds.sdsempty fresh with
    | none => .error .assertion
    | some s => .ok ({ r with buf := s.text, pos := 0 }, s)
  else .ok (r, s)

/-- `redisReaderFeed` -/
def feedHeld (fresh grow : Allocation) (r : RedisReader) (held : Option Sds)
    (chunk : List Char) : Except SdsFault (RedisReader × Option Sds) :=
  if r.err.isSome then .ok (r, held)
  else if chunk = [] then .ok (r, held)
  else
    match held with
    | none => .error .badPointer
    | some s => do
        let (r, s) ← renewHeld fresh r s
        match ← Sds.sdscatlen grow s chunk with
        | none => .ok (r.setErrorOOM, none)
        | some s => .ok ({ r with buf := s.text }, some s)

/-- The consumed part of the buffer goes when it has become large. -/
def discardHeld (r : RedisReader) (s : Sds) : Except SdsFault (RedisReader × Sds) :=
  if 1024 ≤ r.pos then
    (s.sdsrange (toInt32 r.pos) (-1)).map fun s => ({ r with buf := s.text, pos := 0 }, s)
  else .ok (r, s)

/-- `redisReaderGetReply`, behind its loop. -/
def settleHeld (r : RedisReader) (held : Option Sds) :
    Except SdsFault (ReplyNode × RedisReader × Option Sds) :=
  if r.err.isSome then .ok (.null, r, none)
  else
    match held with
    | none => .error .badPointer
    | some s => do
        let (r, s) ← discardHeld r s
        if r.rstack = [] then .ok (r.reply, { r with reply := .null }, some s)
        else .ok (.null, r, some s)

/-- `redisReaderGetReply` -/
def getReplyHeld (r : RedisReader) (held : Option Sds) (memory : Nat → Bool) :
    Except HeldFault (ReplyNode × RedisReader × Option Sds) :=
  if r.err.isSome then .ok (.null, r, held)
  else if r.buf.length = 0 then .ok (.null, r, held)
  else
    match runLoop (attempt (getReplyBody memory)) (fun s => .ok s.2) (r.buf.length + 1)
        (0, r.start) with
    | .error e => .error (.reader e)
    | .ok r => (r.settleHeld held).mapError .buffer

end RedisReader

/-- The calls, with what the allocator does in them. -/
inductive HeldCall where
  | feed (chunk : List Char) (fresh grow : Allocation)
  | getReply (memory : Nat → Bool)

/-- The bytes that a call offers to the reader. -/
def HeldCall.bytes : HeldCall → List Char
  | .feed chunk _ _ => chunk
  | .getReply _ => []

structure HeldSession where
  session : ReaderSession := {}
  held : Option Sds

namespace HeldSession

def step (h : HeldSession) : HeldCall → Except HeldFault HeldSession
  | .feed chunk fresh grow =>
      ((h.session.reader.feedHeld fresh grow h.held chunk).mapError .buffer).map
        fun (r, held) => ⟨h.session.after r [] false, held⟩
  | .getReply memory =>
      (h.session.reader.getReplyHeld h.held memory).map fun
        | (.null, r, held) => ⟨h.session.after r [] true, held⟩
        | (reply, r, held) => ⟨h.session.after r [reply] false, held⟩

/-- The reader holds a valid string of the bytes in its buffer, until it has an
error. -/
structure Sound (h : HeldSession) : Prop where
  alive : h.session.Alive
  held : h.session.reader.err = none → ∃ s, h.held = some s ∧ s.Shows h.session.reader.buf

/-- The same call for a reader over a list. -/
inductive Alike : HeldCall → ReaderCall → Prop where
  | feed (chunk : List Char) (fresh grow : Allocation) (m : FeedMemory) :
      m.fresh = fresh.granted → (grow.granted = true → m.grown = true) →
      Alike (.feed chunk fresh grow) (.feed chunk m)
  | getReply (memory : Nat → Bool) : Alike (.getReply memory) (.getReply memory)

theorem Alike.bytes {call : HeldCall} {call' : ReaderCall} (h : Alike call call') :
    call'.bytes = call.bytes := by
  cases h <;> rfl

end HeldSession

section Buffer

variable {r r' : RedisReader} {s : Sds} {p : Parse} {memory : Nat → Bool}

/-- The loop leaves the buffer alone or ends with an error. -/
theorem Settles.buffer (h : Settles memory r p r') :
    r'.err.isSome ∨ r'.err = none ∧ r'.buf = r.buf := by
  cases h with
  | completes _ hcompletes hbuf => exact .inr ⟨hcompletes.err, hbuf⟩
  | waits _ _ hmirrors hbuf => exact .inr ⟨hmirrors.err, hbuf⟩
  | fails _ _ hbroken => exact .inl hbroken.isSome
  | starves _ _ hbroken => exact .inl hbroken.isSome

/-- What a call leaves: an error, or a string of the bytes in the buffer. -/
def Left (r : RedisReader) (held : Option Sds) : Prop :=
  r.err = none → ∃ s, held = some s ∧ s.Shows r.buf

end Buffer

/-! ### Sessions -/

namespace HeldSession

variable {h : HeldSession}

/-- A reader with a new buffer. -/
def start (s : Sds) : HeldSession := ⟨{}, some s⟩

end HeldSession

end CloRedis
