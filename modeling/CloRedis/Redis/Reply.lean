import Mathlib.Tactic

/-!
`reply.cc`: the reply a connection shows to its borrower, with the state and
the message of the last failure. A hiredis reply is the tree it is; `freed`
records the trees an object passed to `freeReplyObject`.
-/

namespace CloRedis

/-- `REDIS_REPLY_*` -/
inductive ReplyType where
  | string
  | array
  | integer
  | nil
  | status
  | error
  deriving DecidableEq, Repr

/-- `struct redisReply` of hiredis; the lengths are those of the lists. -/
structure HiredisReply where
  type : ReplyType
  integer : Int := 0
  str : List Char := []
  element : List HiredisReply := []

inductive ErrState where
  | ok
  | errorType
  | errorCommand
  | errorHiredis
  | errorInvoke
  deriving DecidableEq, Repr

/-- `REDIS_ERRSTR_LEN` -/
def redisErrstrLen : Nat := 256

/-- The buffer `err_msg_`. A new object does not clear it, so its first
content is whatever the memory held. `stray` counts the writes behind it, where
`reclaim_` is. -/
structure ErrMsg where
  cells : List Char
  size_eq : cells.length = redisErrstrLen
  stray : Nat := 0

structure RedisReply where
  reply : Option HiredisReply
  errState : ErrState
  errMsg : ErrMsg
  reclaim : Bool
  freed : List HiredisReply := []

/-- One byte written at an index of the buffer. -/
def ErrMsg.write (buf : ErrMsg) (i : Nat) (c : Char) : ErrMsg where
  cells := buf.cells.set i c
  size_eq := by simp [buf.size_eq]
  stray := if i < redisErrstrLen then buf.stray else buf.stray + 1

/-- `memcpy` of a text that fits. -/
def ErrMsg.copy (buf : ErrMsg) (text : List Char) (h : text.length ≤ redisErrstrLen) :
    ErrMsg where
  cells := text ++ buf.cells.drop text.length
  size_eq := by
    have := buf.size_eq
    simp only [List.length_append, List.length_drop]
    omega
  stray := buf.stray

/-- How much of a message is copied. -/
def ErrMsg.len (msg : List Char) : Nat :=
  if msg.length < redisErrstrLen then msg.length else redisErrstrLen - 1

theorem ErrMsg.len_le (msg : List Char) : len msg ≤ redisErrstrLen := by
  unfold len
  split <;> omega

/-- What `UpdateErrMsg` does to the buffer; the terminator is written behind
the byte that follows the text. -/
def ErrMsg.updateErrMsg (buf : ErrMsg) : Option (List Char) → ErrMsg
  | none => buf
  | some msg =>
      (buf.copy (msg.take (len msg))
        ((List.length_take_le _ msg).trans (len_le msg))).write (len msg + 1) '\x00'

/-- `err_msg_[256]` is the member behind the buffer, `reclaim_`. -/
def clearsReclaim : Option (List Char) → Bool
  | none => false
  | some msg => ErrMsg.len msg + 1 == redisErrstrLen

/-- The terminator of a message is written in the buffer. -/
def FitsErrMsg (errMsg : Option (List Char)) : Prop :=
  ∀ msg ∈ errMsg, msg.length < redisErrstrLen - 1

instance (errMsg : Option (List Char)) : Decidable (FitsErrMsg errMsg) :=
  inferInstanceAs (Decidable (∀ msg ∈ errMsg, _))

theorem clearsReclaim_iff (errMsg : Option (List Char)) :
    clearsReclaim errMsg = true ↔ ¬FitsErrMsg errMsg := by
  cases errMsg with
  | none => simp [clearsReclaim, FitsErrMsg]
  | some msg =>
      have hpos : 0 < redisErrstrLen := by decide
      simp only [clearsReclaim, FitsErrMsg, ErrMsg.len, Option.mem_some_iff, forall_eq', beq_iff_eq]
      split <;> omega

/-- A C string of the bytes: all in front of the first NUL. -/
def cText (bytes : List Char) : List Char := bytes.takeWhile (· ≠ '\x00')

/-- `err_msg()`. Without a NUL in the buffer a reader would go on behind it. -/
def ErrMsg.text (buf : ErrMsg) : List Char := cText buf.cells

namespace RedisReply

def removeOldState (r : RedisReply) : RedisReply :=
  match r.reply with
  | some tree => if r.reclaim then { r with reply := none, freed := tree :: r.freed } else r
  | none => r

/-- `UpdateErrMsg` -/
def updateErrMsg (r : RedisReply) (errMsg : Option (List Char)) : RedisReply :=
  { r with
    errMsg := r.errMsg.updateErrMsg errMsg
    reclaim := r.reclaim && !clearsReclaim errMsg }

def init (r : RedisReply) (reply : Option HiredisReply) (reclaim : Bool) (state : ErrState)
    (errMsg : Option (List Char)) : RedisReply :=
  { r with reply := reply, reclaim := reclaim, errState := state }.updateErrMsg errMsg

def update (r : RedisReply) (reply : Option HiredisReply) (reclaim : Bool) (state : ErrState)
    (errMsg : Option (List Char)) : RedisReply :=
  r.removeOldState.init reply reclaim state errMsg

/-- The constructor without arguments, in memory that holds `garbage`. -/
def new (garbage : ErrMsg) : RedisReply :=
  { reply := none, errState := .errorInvoke, errMsg := garbage,
    reclaim := true : RedisReply }.updateErrMsg none

def ok (r : RedisReply) : Bool :=
  match r.reply with
  | some tree => tree.type != .error
  | none => false

def errStr (r : RedisReply) : List Char :=
  match r.reply with
  | some tree => if tree.type = .error then cText tree.str else []
  | none => r.errMsg.text

section Update

variable (r : RedisReply) (reply : Option HiredisReply) (reclaim : Bool) (state : ErrState)
  (errMsg : Option (List Char))

@[simp] theorem update_reply : (r.update reply reclaim state errMsg).reply = reply := rfl

@[simp] theorem update_errState : (r.update reply reclaim state errMsg).errState = state := rfl

end Update

end RedisReply

end CloRedis
