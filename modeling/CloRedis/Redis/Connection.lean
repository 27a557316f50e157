import CloRedis.Pool.World
import CloRedis.Redis.Hiredis

/-!
`RedisConnectionImpl` of `connection.cc`. The type of contexts, the arguments
through which the outside enters a call and the type of pool pointers are
parameters.
-/

namespace CloRedis

def errReentering : String := "connect reentering"

def errBadConnection : String := "bad redis connection"

def errReplyNull : String := "redisReply object is NULL"

structure RedisConnectionImpl (C P : Type*) extends RedisReply where
  redisContext : Option C
  pool : Option P
  actionCount : Int

/-- What the init handler of a pool is bound to. -/
structure Binding where
  host : String
  port : Int
  password : String
  timeoutMs : Int
  db : Int
  deriving DecidableEq, Repr

/-- The outside during `Connect`. -/
structure ConnectEnv (D W : Type*) where
  dial : D
  auth : W
  select : W

/-- `c_str()` as a C function reads it. -/
def cStr (s : String) : String :=
  String.ofList (s.toList.takeWhile (· ≠ '\x00'))

/-- The words of `Do("AUTH %s", password.c_str())`. -/
def authCommand (password : String) : List String := ["AUTH", cStr password]

/-- The words of `Do("SELECT %d", db)`. -/
def selectCommand (db : Int) : List String := ["SELECT", toString db]

namespace RedisConnectionImpl

variable {C D W P : Type*}

/-- The constructor, in memory whose `err_msg_` holds `garbage`. -/
def new (pool : Option P) (garbage : ErrMsg) : RedisConnectionImpl C P where
  toRedisReply := RedisReply.new garbage
  redisContext := none
  pool := pool
  actionCount := 0

def update (conn : RedisConnectionImpl C P) (reply : Option HiredisReply) (reclaim : Bool)
    (state : ErrState) (errMsg : Option (List Char)) : RedisConnectionImpl C P :=
  { conn with toRedisReply := conn.toRedisReply.update reply reclaim state errMsg }

def isRawConnection (conn : RedisConnectionImpl C P) : Bool :=
  conn.reply.isNone && conn.errState == .ok

/-- `__Do` -/
def doCommand (h : Hiredis C D W) (conn : RedisConnectionImpl C P) (command : Command) (w : W) :
    RedisConnectionImpl C P :=
  let conn := { conn with actionCount := conn.actionCount + 1 }
  match conn.redisContext with
  | none => conn.update none true .errorInvoke (some errBadConnection.toList)
  | some c =>
      let (reply, c) := h.redisvCommand c command w
      let conn := { conn with redisContext := some c }
      if h.err c ≠ 0 then conn.update none true .errorHiredis (some (h.errstr c))
      else
        match reply with
        | some tree => conn.update (some tree) true .ok (some [])
        | none => conn.update none true .errorInvoke (some errReplyNull.toList)

def connect (h : Hiredis C D W) (conn : RedisConnectionImpl C P) (host : String) (port : Int)
    (password : String) (timeout : Timeout) (db : Int) (env : ConnectEnv D W) :
    Bool × RedisConnectionImpl C P :=
  match conn.redisContext with
  | some _ => (false, conn.update none true .errorInvoke (some errReentering.toList))
  | none =>
      match h.redisConnectWithTimeout (cStr host) port timeout env.dial with
      | none => (false, conn.update none true .errorInvoke (some errBadConnection.toList))
      | some c =>
          let conn := { conn with redisContext := some c }
          if h.err c ≠ 0 then
            (false, conn.update none true .errorHiredis (some (h.errstr c)))
          else if password.length = 0 then (true, conn.update none true .ok (some []))
          else
            let conn := conn.doCommand h (.words (authCommand password)) env.auth
            let conn := conn.doCommand h (.words (selectCommand db)) env.select
            (conn.ok, conn)

/-- The init handler: `Init` with its arguments bound. -/
def initHandler (h : Hiredis C D W) (b : Binding) (env : ConnectEnv D W)
    (conn : RedisConnectionImpl C P) : Bool × RedisConnectionImpl C P :=
  let timeout := ⟨b.timeoutMs.tdiv 1000, b.timeoutMs.tmod 1000 * 1000⟩
  conn.connect h b.host b.port b.password timeout b.db env

/-- `Done` up to the call of `Put`: whether the connection may be used again,
and the connection as it is put back. -/
def done (conn : RedisConnectionImpl C P) : Bool × RedisConnectionImpl C P :=
  (conn.ok || conn.isRawConnection, conn.update none true .ok none)

/-- The destructor: the context it passes to `redisFree`. -/
def freedContext (conn : RedisConnectionImpl C P) : Option C := conn.redisContext

/-- The call of `Get` on a pool of connections. -/
def callEnv (h : Hiredis C D W) (b : Binding) (self : P) (malloc : Bool) (garbage : ErrMsg)
    (env : ConnectEnv D W) : CallEnv (RedisConnectionImpl C P) :=
  ⟨malloc, new (some self) garbage, some (initHandler h b env)⟩

section Update

variable (conn : RedisConnectionImpl C P) (reply : Option HiredisReply) (reclaim : Bool)
  (state : ErrState) (errMsg : Option (List Char))

@[simp] theorem update_reply : (conn.update reply reclaim state errMsg).reply = reply := rfl

@[simp] theorem update_errState : (conn.update reply reclaim state errMsg).errState = state := rfl

@[simp] theorem update_redisContext :
    (conn.update reply reclaim state errMsg).redisContext = conn.redisContext := rfl

@[simp] theorem update_pool : (conn.update reply reclaim state errMsg).pool = conn.pool := rfl

end Update

/-- The context is there and has no error. -/
def Healthy (h : Hiredis C D W) (conn : RedisConnectionImpl C P) : Prop :=
  ∃ c, conn.redisContext = some c ∧ h.err c = 0

/-- `Done` would put the connection back. -/
def Reusable (conn : RedisConnectionImpl C P) : Prop :=
  conn.done.1 = true

/-- The fields `Done` looks at speak for the context. -/
def Linked (h : Hiredis C D W) (conn : RedisConnectionImpl C P) : Prop :=
  conn.Reusable → conn.Healthy h

theorem reusable_iff (conn : RedisConnectionImpl C P) :
    conn.Reusable ↔
      (∃ tree, conn.reply = some tree ∧ tree.type ≠ .error) ∨
        (conn.reply = none ∧ conn.errState = .ok) := by
  unfold Reusable done RedisReply.ok isRawConnection
  cases hreply : conn.reply with
  | none => simp
  | some tree => simp

/-- The ways a `Do` ends. -/
inductive DoOutcome (h : Hiredis C D W) (conn : RedisConnectionImpl C P) (command : Command)
    (w : W) : RedisConnectionImpl C P → Prop where
  | noContext (conn' : RedisConnectionImpl C P) : conn.redisContext = none →
      conn'.redisContext = none → conn'.reply = none → conn'.errState ≠ .ok →
      DoOutcome h conn command w conn'
  | failed (conn' : RedisConnectionImpl C P) (c : C) : conn.redisContext = some c →
      conn'.redisContext = some (h.redisvCommand c command w).2 → conn'.reply = none →
      conn'.errState ≠ .ok →
      (h.err (h.redisvCommand c command w).2 ≠ 0 ∨ (h.redisvCommand c command w).1 = none) →
      DoOutcome h conn command w conn'
  | replied (conn' : RedisConnectionImpl C P) (c : C) (tree : HiredisReply) :
      conn.redisContext = some c →
      conn'.redisContext = some (h.redisvCommand c command w).2 →
      conn'.reply = some tree → (h.redisvCommand c command w).1 = some tree →
      h.err (h.redisvCommand c command w).2 = 0 →
      DoOutcome h conn command w conn'

section Do

variable (h : Hiredis C D W) (conn : RedisConnectionImpl C P) (command : Command) (w : W)

theorem doCommand_outcome : DoOutcome h conn command w (conn.doCommand h command w) := by
  unfold doCommand
  dsimp only
  cases hcontext : conn.redisContext with
  | none =>
      refine .noContext _ hcontext rfl rfl ?_
      simp
  | some c =>
      dsimp only
      by_cases herr : h.err (h.redisvCommand c command w).2 = 0
      · rw [if_neg (not_not.mpr herr)]
        cases hreply : (h.redisvCommand c command w).1 with
        | none =>
            refine .failed _ c hcontext rfl rfl ?_ (Or.inr hreply)
            simp
        | some tree => exact .replied _ c tree hcontext rfl rfl hreply herr
      · rw [if_pos herr]
        refine .failed _ c hcontext rfl rfl ?_ (Or.inl herr)
        simp

/-- The context after a `Do` is the one hiredis left. -/
theorem doCommand_redisContext {c : C} (hcontext : conn.redisContext = some c) :
    (conn.doCommand h command w).redisContext = some (h.redisvCommand c command w).2 := by
  have houtcome := doCommand_outcome h conn command w
  generalize conn.doCommand h command w = conn' at houtcome ⊢
  cases houtcome with
  | noContext hnone _ _ _ => simp [hnone] at hcontext
  | failed c' hc' hcontext' _ _ _ =>
      cases hcontext.symm.trans hc'
      exact hcontext'
  | replied c' tree hc' hcontext' _ _ _ =>
      cases hcontext.symm.trans hc'
      exact hcontext'

/-- After a `Do`, whatever its outcome, the fields speak for the context. -/
theorem doCommand_linked : (conn.doCommand h command w).Linked h := by
  have houtcome := doCommand_outcome h conn command w
  generalize conn.doCommand h command w = conn' at houtcome ⊢
  intro hreusable
  rw [reusable_iff] at hreusable
  cases houtcome with
  | noContext _ _ hreply hstate => simp [hreply, hstate] at hreusable
  | failed c _ _ hreply hstate _ => simp [hreply, hstate] at hreusable
  | replied c tree _ hcontext _ _ herr => exact ⟨_, hcontext, herr⟩

@[simp] theorem doCommand_pool : (conn.doCommand h command w).pool = conn.pool := by
  unfold doCommand
  dsimp only
  split
  · rfl
  · split
    · rfl
    · split <;> rfl

end Do

@[simp] theorem done_redisContext (conn : RedisConnectionImpl C P) :
    conn.done.2.redisContext = conn.redisContext := rfl

@[simp] theorem done_pool (conn : RedisConnectionImpl C P) : conn.done.2.pool = conn.pool := rfl

/-- The ways `Init` ends on a new connection. -/
inductive Connected (h : Hiredis C D W) (b : Binding) (env : ConnectEnv D W) :
    Bool × RedisConnectionImpl C P → Prop where
  | failed (conn' : RedisConnectionImpl C P) : Connected h b env (false, conn')
  | noPassword (conn' : RedisConnectionImpl C P) (timeout : Timeout) (c : C) :
      h.redisConnectWithTimeout (cStr b.host) b.port timeout env.dial = some c →
      h.err c = 0 → b.password.length = 0 → conn'.redisContext = some c →
      conn'.reply = none → conn'.errState = .ok → Connected h b env (true, conn')
  | selected (opened conn' : RedisConnectionImpl C P) (ok : Bool) (timeout : Timeout) (c : C) :
      h.redisConnectWithTimeout (cStr b.host) b.port timeout env.dial = some c →
      h.err c = 0 → b.password.length ≠ 0 → opened.redisContext = some c →
      conn' = (opened.doCommand h (.words (authCommand b.password)) env.auth).doCommand h
        (.words (selectCommand b.db)) env.select →
      ok = conn'.ok → Connected h b env (ok, conn')

theorem initHandler_connected (h : Hiredis C D W) (b : Binding) (env : ConnectEnv D W)
    (conn : RedisConnectionImpl C P) (hnew : conn.redisContext = none) :
    Connected h b env (conn.initHandler h b env) := by
  unfold initHandler connect
  dsimp only
  rw [hnew]
  dsimp only
  cases hdial : h.redisConnectWithTimeout (cStr b.host) b.port
      ⟨b.timeoutMs.tdiv 1000, b.timeoutMs.tmod 1000 * 1000⟩ env.dial with
  | none => exact .failed _
  | some c =>
      dsimp only
      by_cases herr : h.err c = 0
      · rw [if_neg (not_not.mpr herr)]
        by_cases hpassword : b.password.length = 0
        · rw [if_pos hpassword]
          exact .noPassword _ _ c hdial herr hpassword rfl rfl rfl
        · rw [if_neg hpassword]
          exact .selected _ _ _ _ c hdial herr hpassword rfl rfl rfl
      · rw [if_pos herr]
        exact .failed _

theorem initHandler_pool (h : Hiredis C D W) (b : Binding) (env : ConnectEnv D W)
    (conn : RedisConnectionImpl C P) : (conn.initHandler h b env).2.pool = conn.pool := by
  unfold initHandler connect
  dsimp only
  split
  · rfl
  · split
    · rfl
    · split
      · rfl
      · split
        · rfl
        · simp

/-- A connection the init handler accepts is one `Done` could put back. -/
theorem initHandler_accepts {h : Hiredis C D W} {b : Binding} {env : ConnectEnv D W}
    {conn conn' : RedisConnectionImpl C P} (hnew : conn.redisContext = none)
    (hinit : conn.initHandler h b env = (true, conn')) :
    conn'.Reusable ∧ conn'.Linked h := by
  have hconnected := initHandler_connected h b env conn hnew
  rw [hinit] at hconnected
  cases hconnected with
  | noPassword _ timeout c _ herr _ hcontext hreply hstate =>
      refine ⟨?_, fun _ => ⟨c, hcontext, herr⟩⟩
      rw [reusable_iff]
      exact Or.inr ⟨hreply, hstate⟩
  | selected opened _ _ timeout c _ _ _ _ hconn hok =>
      constructor
      · unfold Reusable done
        rw [← hok, Bool.true_or]
      · rw [hconn]
        exact doCommand_linked _ _ _ _

end RedisConnectionImpl

end CloRedis
