import CloRedis.Manager.Address
import CloRedis.Redis.Connection

/-!
`RedisManager` of `cloredis.cc`. The memory it works on is explicit: a slot
names a place where the manager keeps a pool, and the pools ever created for a
slot are listed in the order of their creation, deleted or not. Following a
pointer to a deleted pool or into a freed array is a fault. Neither `new` nor
the `malloc` of an array of slaves fails.
-/

namespace CloRedis

open Library

/-- `MAX_DB_NUM` -/
abbrev maxDbNum : Nat := 16

/-- `DEFAULT_DB` -/
def defaultDb : Fin maxDbNum := 0

/-- `MAX_SLAVE_CNT` -/
def maxSlaveCnt : Nat := 16

def errBadHost : String := "bad host format"

inductive RedisRole where
  | master
  | slave
  deriving DecidableEq, Repr

/-- `master_[db]`, or `slave_[db][index]`. -/
inductive Slot where
  | master (db : Fin maxDbNum)
  | slave (db : Fin maxDbNum) (index : Nat)
  deriving DecidableEq, Repr

def Slot.role : Slot → RedisRole
  | .master _ => .master
  | .slave _ _ => .slave

def Slot.db : Slot → Fin maxDbNum
  | .master db => db
  | .slave db _ => db

/-- The pool created as number `gen` for a slot. -/
structure PoolPtr where
  slot : Slot
  gen : Nat
  deriving DecidableEq, Repr

/-- A connection in the memory of a pool. -/
structure ConnPtr where
  pool : PoolPtr
  block : Block
  deriving DecidableEq, Repr

structure PoolCell (C : Type) where
  binding : Binding
  option : ConnectionPoolOption
  world : World (RedisConnectionImpl C PoolPtr) := {}
  deleted : Bool := false

structure SlaveArray where
  entries : List (Option PoolPtr)
  freed : Bool := false
  deriving DecidableEq, Repr

/-- The fields that `Init` and `InitEx` set. -/
structure ManagerConfig where
  masterAddr : ServiceAddress := {}
  slaveAddr : List ServiceAddress := []
  option : ConnectionPoolOption := {}
  password : String := ""
  timeoutMs : Int := -1
  slaveCnt : Nat := 0
  deriving DecidableEq, Repr

/-- The fields of the class; `slave_[db]` holds the number of its array. -/
structure RedisManager extends ManagerConfig where
  inited : Bool := false
  master : Fin maxDbNum → Option PoolPtr := fun _ => none
  slave : Fin maxDbNum → Option Nat := fun _ => none

structure ManagerWorld (C : Type) extends RedisManager where
  pools : Slot → List (PoolCell C) := fun _ => []
  arrays : Fin maxDbNum → List SlaveArray := fun _ => []

/-- The outside during a `Get` on a pool. -/
structure GetEnv (D W : Type) where
  clock : Clock
  malloc : Bool
  garbage : ErrMsg
  connect : ConnectEnv D W

variable {C D W : Type}

namespace PoolCell

/-- `Get` on the pool at `self`. -/
def get (h : Hiredis C D W) (self : PoolPtr) (env : GetEnv D W) (cell : PoolCell C) :
    Option Block × PoolCell C :=
  let r := cell.world.pool.get cell.option env.clock
    (RedisConnectionImpl.callEnv h cell.binding self env.malloc env.garbage env.connect)
  (r.item.map (·.block),
    { cell with world := { pool := r.pool, lent := r.item.toList ++ cell.world.lent } })

def put (now : UInt64) (item : ListItem (RedisConnectionImpl C PoolPtr)) (isOk : Bool)
    (cell : PoolCell C) : PoolCell C :=
  { cell with
    world := { cell.world with pool := cell.world.pool.put cell.option now item isOk } }

def withLent (lent : List (ListItem (RedisConnectionImpl C PoolPtr))) (cell : PoolCell C) :
    PoolCell C :=
  { cell with world := { cell.world with lent := lent } }

end PoolCell

/-- The arguments bound into the init handler of a pool. -/
def ManagerConfig.bindingFor (cfg : ManagerConfig) (addr : ServiceAddress) (db : Fin maxDbNum) :
    Binding :=
  ⟨addr.host, addr.port, cfg.password, cfg.timeoutMs, db.val⟩

namespace ManagerWorld

/-! ### Memory -/

def cellAt (w : ManagerWorld C) (ptr : PoolPtr) : Option (PoolCell C) :=
  (w.pools ptr.slot)[ptr.gen]?

/-- Follow a pointer to a pool. -/
def livePool (w : ManagerWorld C) (ptr : PoolPtr) : Except Fault (PoolCell C) :=
  match w.cellAt ptr with
  | none => .error .nullPointer
  | some cell => if cell.deleted then .error .useAfterDelete else .ok cell

def setPool (w : ManagerWorld C) (ptr : PoolPtr) (cell : PoolCell C) : ManagerWorld C :=
  { w with pools := Function.update w.pools ptr.slot ((w.pools ptr.slot).set ptr.gen cell) }

/-- `new RedisConnectionPool(&option_, handler)` -/
def newPool (w : ManagerWorld C) (slot : Slot) (binding : Binding) : PoolPtr × ManagerWorld C :=
  (⟨slot, (w.pools slot).length⟩,
    { w with
      pools := Function.update w.pools slot
        (w.pools slot ++ [{ binding := binding, option := w.option }]) })

def deletePool (w : ManagerWorld C) (ptr : PoolPtr) : Except Fault (ManagerWorld C) :=
  match w.cellAt ptr with
  | none => .error .nullPointer
  | some cell =>
      if cell.deleted then .error .doubleDelete
      else .ok (w.setPool ptr { cell with deleted := true })

/-- Follow `slave_[db]`. -/
def liveArray (w : ManagerWorld C) (db : Fin maxDbNum) (gen : Nat) : Except Fault SlaveArray :=
  match (w.arrays db)[gen]? with
  | none => .error .nullPointer
  | some array => if array.freed then .error .freedArray else .ok array

def setArray (w : ManagerWorld C) (db : Fin maxDbNum) (gen : Nat) (array : SlaveArray) :
    ManagerWorld C :=
  { w with arrays := Function.update w.arrays db ((w.arrays db).set gen array) }

/-- `slave_[db] && slave_[db][index]`, as the pointer found. -/
def readSlave (w : ManagerWorld C) (db : Fin maxDbNum) (index : Nat) :
    Except Fault (Option PoolPtr) :=
  match w.slave db with
  | none => .ok none
  | some gen => do
      let array ← w.liveArray db gen
      match array.entries[index]? with
      | none => .error .outOfBounds
      | some entry => .ok entry

def writeSlave (w : ManagerWorld C) (db : Fin maxDbNum) (index : Nat) (ptr : PoolPtr) :
    Except Fault (ManagerWorld C) :=
  match w.slave db with
  | none => .error .nullPointer
  | some gen => do
      let array ← w.liveArray db gen
      if index < array.entries.length then
        .ok (w.setArray db gen { array with entries := array.entries.set index (some ptr) })
      else .error .outOfBounds

/-- Allocate and clear `slave_[db]` when it is NULL. -/
def ensureArray (w : ManagerWorld C) (db : Fin maxDbNum) : ManagerWorld C :=
  match w.slave db with
  | some _ => w
  | none =>
      { w with
        slave := Function.update w.slave db (some (w.arrays db).length)
        arrays := Function.update w.arrays db
          (w.arrays db ++ [{ entries := List.replicate w.slaveAddr.length none }]) }

def freeArray (w : ManagerWorld C) (db : Fin maxDbNum) (gen : Nat) :
    Except Fault (ManagerWorld C) :=
  match (w.arrays db)[gen]? with
  | none => .error .nullPointer
  | some array =>
      if array.freed then .error .doubleDelete
      else .ok (w.setArray db gen { array with freed := true })

/-! ### The methods -/

def initConnectionPool (w : ManagerWorld C) (role : RedisRole) (db : Fin maxDbNum)
    (slaveSlot : Nat) : Except Fault (ManagerWorld C) :=
  match role with
  | .master =>
      let (ptr, w) := w.newPool (.master db) (w.bindingFor w.masterAddr db)
      .ok { w with master := Function.update w.master db (some ptr) }
  | .slave =>
      match w.slaveAddr[slaveSlot]? with
      | none => .error .outOfBounds
      | some addr =>
          let w := w.ensureArray db
          let (ptr, w) := w.newPool (.slave db slaveSlot) (w.bindingFor addr db)
          w.writeSlave db slaveSlot ptr

/-- `pool->Get(err_msg)` -/
def poolGet (h : Hiredis C D W) (w : ManagerWorld C) (ptr : PoolPtr) (env : GetEnv D W) :
    Except Fault (Option ConnPtr × ManagerWorld C) := do
  let cell ← w.livePool ptr
  let (block, cell) := cell.get h ptr env
  .ok (block.map fun block => ⟨ptr, block⟩, w.setPool ptr cell)

/-- `Get` through a pointer that may be NULL. -/
def getAt (h : Hiredis C D W) (w : ManagerWorld C) (env : GetEnv D W) :
    Option PoolPtr → Except Fault (Option ConnPtr × ManagerWorld C)
  | none => .error .nullPointer
  | some ptr => w.poolGet h ptr env

def dbIndex (db : Int) : Option (Fin maxDbNum) :=
  if h : 0 ≤ db ∧ db < maxDbNum then some ⟨db.toNat, by omega⟩ else none

/-- The slave `Get` uses: the one asked for, or a random one. -/
def realIndex (slaveCnt : Nat) (index : Int) (rand : Nat) : Nat :=
  if 0 ≤ index ∧ index < slaveCnt then index.toNat else rand % slaveCnt

def get (h : Hiredis C D W) (w : ManagerWorld C) (db : Int) (role : RedisRole) (index : Int)
    (rand : Nat) (env : GetEnv D W) : Except Fault (Option ConnPtr × ManagerWorld C) :=
  if maxDbNum ≤ db then .ok (none, w)
  else
    match dbIndex db with
    | none => .error .outOfBounds
    | some db =>
        if role = .master ∨ w.slaveCnt < 1 then
          match w.master db with
          | some ptr => w.poolGet h ptr env
          | none => do
              let w ← w.initConnectionPool .master db 0
              w.getAt h env (w.master db)
        else do
          let index := realIndex w.slaveCnt index rand
          match ← w.readSlave db index with
          | some ptr => w.poolGet h ptr env
          | none => do
              let w ← w.initConnectionPool .slave db index
              let ptr ← w.readSlave db index
              w.getAt h env ptr

/-- `Done` on a lent connection. The pool that takes it back is the one the
connection points to; with none, nothing is put back. -/
def done (w : ManagerWorld C) (conn : ConnPtr) (now : Option Timeval) :
    Except Fault (ManagerWorld C) :=
  match w.cellAt conn.pool with
  | none => .error .notLent
  | some cell =>
      match takeFirst (isBlock conn.block) cell.world.lent with
      | none => .error .notLent
      | some (item, rest) =>
          let raw := item.update fun impl => impl.done.2
          match item.object.pool with
          | none => .ok (w.setPool conn.pool (cell.withLent (raw :: rest)))
          | some target => do
              let w := w.setPool conn.pool (cell.withLent rest)
              let cell ← w.livePool target
              .ok (w.setPool target (cell.put (getCurrentTimeMs now) raw item.object.done.1))

/-- `Do` on a lent connection. -/
def doCommand (h : Hiredis C D W) (w : ManagerWorld C) (conn : ConnPtr) (command : Command)
    (wire : W) : Except Fault (ManagerWorld C) :=
  match w.cellAt conn.pool with
  | none => .error .notLent
  | some cell =>
      match takeFirst (isBlock conn.block) cell.world.lent with
      | none => .error .notLent
      | some (item, rest) =>
          .ok (w.setPool conn.pool
            (cell.withLent ((item.update fun impl => impl.doCommand h command wire) :: rest)))

/-- The destructor of a handle that may hold nothing. -/
def release (w : ManagerWorld C) (now : Option Timeval) : Option ConnPtr →
    Except Fault (ManagerWorld C)
  | none => .ok w
  | some conn => w.done conn now

structure InitResult (C : Type) where
  ok : Bool
  errMsg : Option String
  world : ManagerWorld C

/-- The outside while a connection is got and its handle destroyed. -/
structure ProbeEnv (D W : Type) where
  get : GetEnv D W
  put : Option Timeval

/-- What `Init` and `InitEx` do once the master address is known. -/
def configure (w : ManagerWorld C) (addr : ServiceAddress) (password : String) (timeoutMs : Int)
    (option : Option ConnectionPoolOption) : ManagerWorld C :=
  { w with
    masterAddr := addr, option := option.getD w.option
    password := password, timeoutMs := timeoutMs }

def init (h : Hiredis C D W) (w : ManagerWorld C) (host password : String) (timeoutMs : Int)
    (option : Option ConnectionPoolOption) (env : ProbeEnv D W) : Except Fault (InitResult C) :=
  if w.inited then .ok ⟨false, some errReentering, w⟩
  else
    let w := { w with inited := true }
    match parseAddressVector host with
    | [addr] => do
        let w := w.configure addr password timeoutMs option
        let w ← w.initConnectionPool .master 0 0
        let (conn, w) ← w.getAt h env.get (w.master 0)
        let w ← w.release env.put conn
        .ok ⟨conn.isSome, none, w⟩
    | _ => .ok ⟨false, some errBadHost, w⟩

/-- The slave addresses that are kept: all of them, unless there are too many. -/
def addSlaves (w : ManagerWorld C) (addrs : List ServiceAddress) : ManagerWorld C :=
  let w := if 0 < addrs.length ∧ addrs.length < maxSlaveCnt then
      { w with slaveAddr := w.slaveAddr ++ addrs }
    else w
  { w with slaveCnt := w.slaveAddr.length }

def initEx (h : Hiredis C D W) (w : ManagerWorld C) (masterHost slaveHosts password : String)
    (timeoutMs : Int) (option : Option ConnectionPoolOption) (masterEnv slaveEnv : ProbeEnv D W) :
    Except Fault (InitResult C) :=
  if w.inited then .ok ⟨false, some errReentering, w⟩
  else
    let w := { w with inited := true }
    match parseAddressVector masterHost with
    | [addr] => do
        let w := (w.configure addr password timeoutMs option).addSlaves
          (parseAddressVector slaveHosts)
        let w ← w.initConnectionPool .master 0 0
        let w ← w.initConnectionPool .slave 0 0
        let (masterConn, w) ← w.getAt h masterEnv.get (w.master 0)
        let ptr ← w.readSlave 0 0
        let (slaveConn, w) ← w.getAt h slaveEnv.get ptr
        -- the handles are destroyed in the reverse order
        let w ← w.release slaveEnv.put slaveConn
        let w ← w.release masterEnv.put masterConn
        .ok ⟨masterConn.isSome && slaveConn.isSome, none, w⟩
    | _ => .ok ⟨false, some errBadHost, w⟩

/-- The loops of `ActiveConnectionCount` and `ConnectionInPool`. -/
def countConnections (w : ManagerWorld C) (role : RedisRole)
    (count : ConnectionPool (RedisConnectionImpl C PoolPtr) → Int) : Except Fault Int :=
  let add (total : Int) : Option PoolPtr → Except Fault Int
    | none => .ok total
    | some ptr => do
        let cell ← w.livePool ptr
        .ok (total + count cell.world.pool)
  match role with
  | .master => (List.finRange maxDbNum).foldlM (fun total db => add total (w.master db)) 0
  | .slave =>
      (List.finRange maxDbNum).foldlM (fun total db =>
        (List.range w.slaveCnt).foldlM (fun total index => do
          let ptr ← w.readSlave db index
          add total ptr) total) 0

def activeConnectionCount (w : ManagerWorld C) (role : RedisRole) : Except Fault Int :=
  w.countConnections role (·.activeCnt)

def connectionInPool (w : ManagerWorld C) (role : RedisRole) : Except Fault Int :=
  w.countConnections role (·.connInPool)

def connectionInUse (w : ManagerWorld C) (role : RedisRole) : Except Fault Int := do
  let active ← w.activeConnectionCount role
  let idle ← w.connectionInPool role
  .ok (active - idle)

/-- `delete` of a pointer that may be NULL. -/
def deleteAt (w : ManagerWorld C) : Option PoolPtr → Except Fault (ManagerWorld C)
  | none => .ok w
  | some ptr => w.deletePool ptr

/-- One turn of the loop of `Flush`. -/
def flushDb (w : ManagerWorld C) (db : Fin maxDbNum) : Except Fault (ManagerWorld C) := do
  let w ← w.deleteAt (w.master db)
  match w.slave db with
  | none => .ok w
  | some gen => do
      let w ← (List.range w.slaveCnt).foldlM (fun w index => do
        let ptr ← w.readSlave db index
        w.deleteAt ptr) w
      w.freeArray db gen

def flush (w : ManagerWorld C) : Except Fault (ManagerWorld C) := do
  let w ← (List.finRange maxDbNum).foldlM flushDb w
  .ok { w with inited := false }

/-- `~RedisManager` -/
def destructor (w : ManagerWorld C) : Except Fault (ManagerWorld C) := w.flush

end ManagerWorld

end CloRedis
