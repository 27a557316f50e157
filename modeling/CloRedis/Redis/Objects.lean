import CloRedis.Library.Run
import CloRedis.Redis.Connection

/-!
`RedisReply` objects and connections of a program, by name. An object holds a
pointer into a reply tree, and several objects may hold the same pointer. The
heap keeps the trees the program was handed and the arguments of
`freeReplyObject`, both in their order.
-/

namespace CloRedis

/-- A `redisReply*`: a tree, and the way from its root to the node. -/
structure ReplyPtr where
  tree : Nat
  path : List Nat
  deriving DecidableEq, Repr

def HiredisReply.node (tree : HiredisReply) : List Nat → Option HiredisReply
  | [] => some tree
  | i :: path => (tree.element[i]?).bind fun child => child.node path

/-- The fields of a `RedisReply`. -/
structure ReplyObject where
  reply : Option ReplyPtr
  errState : ErrState
  errMsg : ErrMsg
  reclaim : Bool

namespace ReplyObject

/-- `RemoveOldState`, with what it passes to `freeReplyObject`. -/
def removeOldState (r : ReplyObject) : ReplyObject × List ReplyPtr :=
  match r.reply with
  | some p => if r.reclaim then ({ r with reply := none }, [p]) else (r, [])
  | none => (r, [])

/-- `UpdateErrMsg` -/
def updateErrMsg (r : ReplyObject) (errMsg : Option (List Char)) : ReplyObject :=
  { r with
    errMsg := r.errMsg.updateErrMsg errMsg
    reclaim := r.reclaim && !clearsReclaim errMsg }

def init (r : ReplyObject) (reply : Option ReplyPtr) (reclaim : Bool) (state : ErrState)
    (errMsg : Option (List Char)) : ReplyObject :=
  { r with reply := reply, reclaim := reclaim, errState := state }.updateErrMsg errMsg

def update (r : ReplyObject) (reply : Option ReplyPtr) (reclaim : Bool) (state : ErrState)
    (errMsg : Option (List Char)) : ReplyObject × List ReplyPtr :=
  (r.removeOldState.1.init reply reclaim state errMsg, r.removeOldState.2)

/-- The constructor, in memory whose `err_msg_` holds `garbage`. -/
def construct (garbage : ErrMsg) (reply : Option ReplyPtr) (reclaim : Bool) (state : ErrState)
    (errMsg : Option (List Char)) : ReplyObject :=
  { reply := reply, errState := state, errMsg := garbage,
    reclaim := reclaim : ReplyObject }.updateErrMsg errMsg

/-- The constructor without arguments. -/
def new (garbage : ErrMsg) : ReplyObject := construct garbage none true .errorInvoke none

/-- The move constructor. It reads its argument and leaves it as it is. -/
def moved (garbage : ErrMsg) (source : ReplyObject) : ReplyObject :=
  construct garbage source.reply source.reclaim source.errState (some source.errMsg.text)

/-- The tree the object frees. -/
def owned (r : ReplyObject) : Option ReplyPtr := if r.reclaim then r.reply else none

@[simp] theorem updateErrMsg_reply (r : ReplyObject) (errMsg : Option (List Char)) :
    (r.updateErrMsg errMsg).reply = r.reply := rfl

/-- A message that is too long disarms the object. -/
theorem updateErrMsg_owned (r : ReplyObject) (errMsg : Option (List Char)) :
    (r.updateErrMsg errMsg).owned = if clearsReclaim errMsg then none else r.owned := by
  unfold updateErrMsg owned
  cases clearsReclaim errMsg <;> simp

theorem construct_owned (garbage : ErrMsg) (reply : Option ReplyPtr) (reclaim : Bool)
    (state : ErrState) (errMsg : Option (List Char)) :
    (construct garbage reply reclaim state errMsg).owned =
      if clearsReclaim errMsg then none else if reclaim then reply else none :=
  updateErrMsg_owned _ errMsg

theorem removeOldState_freed (r : ReplyObject) : r.removeOldState.2 = r.owned.toList := by
  unfold removeOldState owned
  cases r.reply with
  | none => simp
  | some p => cases r.reclaim <;> simp

theorem removeOldState_errMsg (r : ReplyObject) : r.removeOldState.1.errMsg = r.errMsg := by
  unfold removeOldState
  cases r.reply with
  | none => rfl
  | some p => cases r.reclaim <;> rfl

theorem removeOldState_owned (r : ReplyObject) : r.removeOldState.1.owned = none := by
  unfold removeOldState owned
  cases hreply : r.reply with
  | none => simp [hreply]
  | some p => cases hreclaim : r.reclaim <;> simp [hreclaim]

end ReplyObject

/-- What a `RedisConnectionImpl` has besides. -/
structure ConnectionFields (C : Type*) where
  redisContext : Option C
  actionCount : Int

/-- A plain reply or a connection. -/
structure ReplyOrConnection (C : Type*) extends ReplyObject where
  connection : Option (ConnectionFields C)

/-- What makes a program ill formed. -/
inductive HeapFault where
  | noObject
  | nameTaken
  | notAConnection
  | dangling
  deriving DecidableEq, Repr

structure ReplyHeap (H C : Type*) where
  trees : List HiredisReply
  freed : List ReplyPtr
  objects : H → Option (ReplyOrConnection C)

/-- The first two arguments of an `Update`. -/
inductive UpdateSource (H : Type*) where
  | null (reclaim : Bool)
  | tree (tree : HiredisReply)
  | element (source : H) (index : Nat)

/-- The statements of a program. -/
inductive ReplyStmt (H C W : Type*) where
  | construct (z : H) (tree : HiredisReply) (state : ErrState) (errMsg : Option (List Char))
      (garbage : ErrMsg)
  | get (z source : H) (index : Nat) (garbage : ErrMsg)
  | moveConstruct (z source : H) (garbage : ErrMsg)
  | moveAssign (x source : H)
  | update (x : H) (source : UpdateSource H) (state : ErrState) (errMsg : Option (List Char))
  | connection (z : H) (redisContext : Option C) (garbage : ErrMsg)
  | doCommand (x : H) (command : Command) (w : W)
  | destroy (x : H)

namespace ReplyHeap

variable {H C D W : Type*} [DecidableEq H]

def empty : ReplyHeap H C where
  trees := []
  freed := []
  objects := fun _ => none

def find (s : ReplyHeap H C) (x : H) : Except HeapFault (ReplyOrConnection C) :=
  match s.objects x with
  | some o => .ok o
  | none => .error .noObject

/-- A new object under a name. -/
def place (s : ReplyHeap H C) (z : H) (o : ReplyOrConnection C) :
    Except HeapFault (ReplyHeap H C) :=
  match s.objects z with
  | some _ => .error .nameTaken
  | none => .ok { s with objects := Function.update s.objects z (some o) }

/-- An object with new fields, and what it passed to `freeReplyObject`. -/
def store (s : ReplyHeap H C) (x : H) (o : ReplyOrConnection C)
    (fields : ReplyObject × List ReplyPtr) : ReplyHeap H C :=
  { s with
    objects := Function.update s.objects x (some { o with toReplyObject := fields.1 })
    freed := s.freed ++ fields.2 }

/-- The pointer to the tree that comes next. -/
def fresh (s : ReplyHeap H C) : ReplyPtr := ⟨s.trees.length, []⟩

def receive (s : ReplyHeap H C) (reply : Option HiredisReply) : ReplyHeap H C :=
  { s with trees := s.trees ++ reply.toList }

def nodeAt (s : ReplyHeap H C) (p : ReplyPtr) : Option HiredisReply :=
  (s.trees[p.tree]?).bind fun tree => tree.node p.path

/-- A read through a pointer. -/
def deref (s : ReplyHeap H C) (p : ReplyPtr) : Except HeapFault HiredisReply :=
  if p.tree ∈ s.freed.map ReplyPtr.tree then .error .dangling
  else
    match s.nodeAt p with
    | some node => .ok node
    | none => .error .dangling

/-- `reply_->element[index]`, behind the test of `operator[]`. -/
def element (s : ReplyHeap H C) (r : ReplyObject) (index : Nat) :
    Except HeapFault (Option ReplyPtr) :=
  match r.reply with
  | none => .ok none
  | some p => (s.deref p).map fun node =>
      if node.type ≠ .array ∨ node.element.length ≤ index then none
      else some { p with path := p.path ++ [index] }

/-- `operator[]`, and `get` -/
def get (s : ReplyHeap H C) (r : ReplyObject) (index : Nat) (garbage : ErrMsg) :
    Except HeapFault ReplyObject :=
  (s.element r index).map fun found =>
    match found with
    | none => ReplyObject.new garbage
    | some p => ReplyObject.construct garbage (some p) false .ok (some [])

def moveAssign (s : ReplyHeap H C) (x source : H) : Except HeapFault (ReplyHeap H C) :=
  (s.find x).bind fun target =>
    let s := s.store x target target.removeOldState
    -- an object moved to itself is read when its own tree is gone
    (s.find source).bind fun o =>
      (s.find x).map fun target =>
        s.store x target
          (target.init o.reply o.reclaim o.errState (some o.errMsg.text), [])

/-- The heap and the first two arguments of an `Update`. -/
def arguments (s : ReplyHeap H C) : UpdateSource H →
    Except HeapFault (ReplyHeap H C × Option ReplyPtr × Bool)
  | .null reclaim => .ok (s, none, reclaim)
  | .tree tree => .ok (s.receive (some tree), some s.fresh, true)
  | .element source index =>
      (s.find source).bind fun array =>
        (s.element array.toReplyObject index).map fun found => (s, found, false)

def update (s : ReplyHeap H C) (x : H) (source : UpdateSource H) (state : ErrState)
    (errMsg : Option (List Char)) : Except HeapFault (ReplyHeap H C) :=
  (s.arguments source).bind fun (s, reply, reclaim) =>
    (s.find x).map fun o => s.store x o (o.update reply reclaim state errMsg)

/-- `__Do` on a connection. -/
def doCommand (h : Hiredis C D W) (s : ReplyHeap H C) (x : H) (o : ReplyOrConnection C)
    (conn : ConnectionFields C) (command : Command) (w : W) : ReplyHeap H C :=
  let conn := { conn with actionCount := conn.actionCount + 1 }
  match conn.redisContext with
  | none =>
      let o := { o with connection := some conn }
      s.store x o (o.update none true .errorInvoke (some errBadConnection.toList))
  | some c =>
      let (answer, c) := h.redisvCommand c command w
      let reply := answer.map fun _ => s.fresh
      let s := s.receive answer
      let o := { o with connection := some { conn with redisContext := some c } }
      if h.err c ≠ 0 then
        s.store x o (o.update none true .errorHiredis (some (h.errstr c)))
      else
        match reply with
        | some p => s.store x o (o.update (some p) true .ok (some []))
        | none => s.store x o (o.update none true .errorInvoke (some errReplyNull.toList))

/-- The destructor. -/
def destroy (s : ReplyHeap H C) (x : H) (o : ReplyOrConnection C) : ReplyHeap H C :=
  { s with
    objects := Function.update s.objects x none
    freed := s.freed ++ o.removeOldState.2 }

def step (h : Hiredis C D W) (s : ReplyHeap H C) :
    ReplyStmt H C W → Except HeapFault (ReplyHeap H C)
  | .construct z tree state errMsg garbage =>
      (s.receive (some tree)).place z
        ⟨ReplyObject.construct garbage (some s.fresh) true state errMsg, none⟩
  | .get z source index garbage =>
      (s.find source).bind fun array =>
        (s.get array.toReplyObject index garbage).bind fun view => s.place z ⟨view, none⟩
  | .moveConstruct z source garbage =>
      (s.find source).bind fun o => s.place z ⟨ReplyObject.moved garbage o.toReplyObject, none⟩
  | .moveAssign x source => s.moveAssign x source
  | .update x source state errMsg => s.update x source state errMsg
  | .connection z redisContext garbage =>
      s.place z ⟨ReplyObject.new garbage, some ⟨redisContext, 0⟩⟩
  | .doCommand x command w =>
      (s.find x).bind fun o =>
        match o.connection with
        | some conn => .ok (s.doCommand h x o conn command w)
        | none => .error .notAConnection
  | .destroy x => (s.find x).map fun o => s.destroy x o

section Lookup

omit [DecidableEq H]

theorem receive_none (s : ReplyHeap H C) : s.receive none = s := by
  unfold receive
  simp

theorem find_ok {s : ReplyHeap H C} {x : H} {o : ReplyOrConnection C} (hfind : s.find x = .ok o) :
    s.objects x = some o := by
  unfold find at hfind
  cases hx : s.objects x with
  | none => simp [hx] at hfind
  | some o' =>
      rw [hx] at hfind
      cases hfind
      rfl

end Lookup

end ReplyHeap

end CloRedis
