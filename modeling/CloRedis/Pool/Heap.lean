import CloRedis.Pool.Memory
import CloRedis.Pool.World

/-!
The pool with its nodes in memory. `Get` and `Put` are written once more, now
as they work on pointers: times, links and objects are fields of nodes that are
looked up in memory, a new connection is written into its block, and a
connection that dies leaves its node where it is. `Represents` relates a memory
to the pool of the calls; the list operations, `Gc` and the writes to a node
keep it.
-/

namespace CloRedis

open Library

variable {α : Type*}

structure HeapPool (α : Type*) where
  idle : IdleNodes α := {}
  memPool : List Block := []
  activeCnt : Int := 0
  stats : ConnectionPoolStats := {}
  mallocs : Nat := 0

/-- `active_time + idle_timeout_ms < now`, on the node. -/
def ListNode.timedOut (o : ConnectionPoolOption) (now : UInt64) (node : ListNode α) : Bool :=
  (node.activeTime + o.idleTimeoutMs).toUInt64 < now

def ListNode.withinLifeTime (o : ConnectionPoolOption) (now : UInt64) (node : ListNode α) : Bool :=
  o.maxConnLifeTime ≤ 0 || now - node.createTime.toUInt64 < o.maxConnLifeTime.toUInt64

/-- What the placement news write: both times, no links, and the object. -/
def ListNode.new (clock : Clock) (ticks : Nat) (object : α) : ListNode α :=
  { activeTime := (clock.read ticks).toInt64, createTime := (clock.read (ticks + 1)).toInt64,
    next := none, prev := none, object := object }

/-- A pool in the middle of a call, with the clock readings taken so far. -/
structure HeapProgress (α : Type*) where
  pool : HeapPool α
  ticks : Nat

structure HeapGetResult (α : Type*) where
  pool : HeapPool α
  item : Option Block
  ticks : Nat

namespace HeapPool

def nodes (p : HeapPool α) : Memory α := p.idle.nodes

def withNodes (p : HeapPool α) (nodes : Memory α) : HeapPool α :=
  { p with idle := { p.idle with nodes := nodes } }

def connInPool (p : HeapPool α) : Int := p.idle.count

def admits (o : ConnectionPoolOption) (p : HeapPool α) : Bool :=
  !(0 < o.maxActive && o.maxActive ≤ p.activeCnt)

def refuse (p : HeapPool α) : HeapPool α :=
  { p with stats := { p.stats with overloadError := p.stats.overloadError + 1 } }

/-- The destructor runs on the object in the block; the block stays allocated. -/
def gc (p : HeapPool α) (item : Block) : Except Fault (HeapPool α) := do
  let _ ← p.nodes.deref (some item)
  .ok { p with memPool := item :: p.memPool, activeCnt := p.activeCnt - 1 }

def sweepBody (o : ConnectionPoolOption) (clock : Clock) (s : HeapProgress α) :
    Except Fault (HeapProgress α ⊕ HeapProgress α) :=
  match s.pool.idle.back with
  | none => .ok (.inr s)
  | some item => do
      let node ← s.pool.nodes.deref (some item)
      if node.timedOut o (clock.read s.ticks) then
        let idle ← s.pool.idle.popBack
        let pool ← gc { s.pool with idle := idle } item
        .ok (.inl ⟨pool, s.ticks + 1⟩)
      else .ok (.inr { s with ticks := s.ticks + 1 })

/-- The first loop of `Get`. -/
def sweep (o : ConnectionPoolOption) (clock : Clock) (s : HeapProgress α) :
    Except Fault (HeapProgress α) :=
  runLoop (attempt (sweepBody o clock)) .ok (s.pool.idle.count.toNat + 1) s

def scanBody (o : ConnectionPoolOption) (clock : Clock) (s : HeapProgress α) :
    Except Fault (HeapProgress α ⊕ (Option Block × HeapProgress α)) :=
  match s.pool.idle.front with
  | none => .ok (.inr (none, s))
  | some item => do
      let idle ← s.pool.idle.popFront
      let node ← idle.nodes.deref (some item)
      let ticks := s.ticks + ConnectionPool.lifeReads o
      if node.withinLifeTime o (clock.read s.ticks) then
        .ok (.inr (some item, ⟨{ s.pool with idle := idle }, ticks⟩))
      else
        let pool ← gc { s.pool with idle := idle } item
        .ok (.inl ⟨pool, ticks⟩)

/-- The second loop of `Get`. -/
def scan (o : ConnectionPoolOption) (clock : Clock) (s : HeapProgress α) :
    Except Fault (Option Block × HeapProgress α) :=
  runLoop (attempt (scanBody o clock)) (fun s => .ok (none, s)) (s.pool.idle.count.toNat + 1) s

def place (p : HeapPool α) (block : Block) (node : ListNode α) : HeapPool α :=
  { p with idle := { p.idle with nodes := p.idle.nodes.insert block node } }

/-- The rest of `GetNewInstance` once it has a block: the placement news write
the whole node, and the init handler may change the object. -/
def build (clock : Clock) (env : CallEnv α) (s : HeapProgress α) (block : Block) :
    Except Fault (HeapGetResult α) :=
  let pool := { s.pool with activeCnt := s.pool.activeCnt + 1 }
  match env.init with
  | none => .ok ⟨pool.place block (.new clock s.ticks env.fresh), some block, s.ticks + 2⟩
  | some handler => do
      let pool := pool.place block (.new clock s.ticks (handler env.fresh).2)
      if (handler env.fresh).1 then .ok ⟨pool, some block, s.ticks + 2⟩
      else
        let pool ← pool.gc block
        .ok ⟨pool, none, s.ticks + 2⟩

def getNewInstance (clock : Clock) (env : CallEnv α) (s : HeapProgress α) :
    Except Fault (HeapGetResult α) :=
  match s.pool.memPool with
  | block :: rest => build clock env ⟨{ s.pool with memPool := rest }, s.ticks⟩ block
  | [] =>
      if env.malloc then
        build clock env ⟨{ s.pool with mallocs := s.pool.mallocs + 1 }, s.ticks⟩ s.pool.mallocs
      else
        let stats := { s.pool.stats with mallocFail := s.pool.stats.mallocFail + 1 }
        .ok ⟨{ s.pool with stats := stats }, none, s.ticks⟩

/-- The block of `Get` that holds the first loop. -/
def expire (o : ConnectionPoolOption) (clock : Clock) (p : HeapPool α) :
    Except Fault (HeapProgress α) :=
  if 0 < o.idleTimeoutMs then sweep o clock ⟨p, 0⟩ else .ok ⟨p, 0⟩

def get (o : ConnectionPoolOption) (clock : Clock) (env : CallEnv α) (p : HeapPool α) :
    Except Fault (HeapGetResult α) :=
  if !p.admits o then .ok ⟨p.refuse, none, 0⟩
  else do
    let swept ← expire o clock p
    let found ← scan o clock swept
    match found.1 with
    | some item => .ok ⟨found.2.pool, some item, found.2.ticks⟩
    | none => getNewInstance clock env found.2

def put (o : ConnectionPoolOption) (now : UInt64) (item : Block) (isOk : Bool) (p : HeapPool α) :
    Except Fault (HeapPool α) :=
  if !isOk then p.gc item
  else do
    let nodes ← p.nodes.assign (fun node => { node with activeTime := now.toInt64 }) (some item)
    let idle ← (p.withNodes nodes).idle.pushFront item
    if 0 < o.maxIdle ∧ o.maxIdle < idle.count then
      let popped ← idle.popBack
      match idle.back with
      | none => .ok { p with idle := popped }
      | some idl => gc { p with idle := popped } idl
    else .ok { p with idle := idle }

end HeapPool

theorem ConnectionPool.Sound.block_unlisted {p : ConnectionPool α} {out : List (ListItem α)}
    {item : ListItem α} (h : p.Sound (item :: out)) : item.block ∉ p.idleBlocks := by
  intro hin
  obtain ⟨other, hother, heq⟩ := List.mem_map.mp hin
  exact h.block_apart other (List.mem_append_left _ hother) heq

/-- What the memory holds of a connection, its links apart. -/
def ListItem.node (item : ListItem α) : ListNode α :=
  { activeTime := item.activeTime, createTime := item.createTime, next := none, prev := none,
    object := item.object }

/-- The memory holds the pool of the calls and the connections `out` that were
taken from it. No block was ever freed. -/
structure HeapPool.Represents (h : HeapPool α) (p : ConnectionPool α) (out : List (ListItem α)) :
    Prop where
  idle : h.idle.Holds p.idleBlocks
  items : ∀ item ∈ p.idle ++ out,
    (h.nodes.lookup item.block).map ListNode.unlinked = some item.node
  allocated : ∀ b, b ∈ h.nodes ↔ b < h.mallocs
  memPool : h.memPool = p.memPool
  activeCnt : h.activeCnt = p.activeCnt
  stats : h.stats = p.stats
  mallocs : h.mallocs = p.mallocs
  sound : p.Sound out

namespace HeapPool.Represents

variable {h : HeapPool α} {p : ConnectionPool α} {out out' : List (ListItem α)}
  {item : ListItem α} {items : List (ListItem α)}

theorem new : ({} : HeapPool α).Represents {} [] where
  idle := IdleNodes.Holds.over ∅
  items := fun _ hmem => absurd hmem List.not_mem_nil
  allocated := fun b => iff_of_false Finmap.notMem_empty b.not_lt_zero
  memPool := rfl
  activeCnt := rfl
  stats := rfl
  mallocs := rfl
  sound := ConnectionPool.Sound.new

/-- The node of a connection, idle or taken. -/
theorem lookup (hrep : h.Represents p out) (hmem : item ∈ p.idle ++ out) :
    ∃ node, h.nodes.lookup item.block = some node ∧ node.unlinked = item.node :=
  Option.map_eq_some_iff.mp (hrep.items item hmem)

theorem timedOut_eq {o : ConnectionPoolOption} {now : UInt64} {node : ListNode α}
    (hnode : node.unlinked = item.node) : node.timedOut o now = item.timedOut o now := by
  have htime : node.activeTime = item.activeTime := congrArg ListNode.activeTime hnode
  unfold ListNode.timedOut ListItem.timedOut
  rw [htime]

theorem withinLifeTime_eq {o : ConnectionPoolOption} {now : UInt64} {node : ListNode α}
    (hnode : node.unlinked = item.node) :
    node.withinLifeTime o now = item.withinLifeTime o now := by
  have htime : node.createTime = item.createTime := congrArg ListNode.createTime hnode
  unfold ListNode.withinLifeTime ListItem.withinLifeTime
  rw [htime]

/-- The counters of the statistics change alike. -/
theorem counting (hrep : h.Represents p out) (f : ConnectionPoolStats → ConnectionPoolStats) :
    ({ h with stats := f h.stats } : HeapPool α).Represents { p with stats := f p.stats } out where
  idle := hrep.idle
  items := hrep.items
  allocated := hrep.allocated
  memPool := hrep.memPool
  activeCnt := hrep.activeCnt
  stats := congrArg f hrep.stats
  mallocs := hrep.mallocs
  sound := ⟨hrep.sound.counted, hrep.sound.blocks, hrep.sound.serials⟩

theorem back_eq (hrep : h.Represents p out) : h.idle.back = p.idle.getLast?.map (·.block) := by
  have hback : h.idle.back = p.idleBlocks.getLast? := hrep.idle.links.back
  rw [hback, ConnectionPool.idleBlocks, List.getLast?_map]

theorem front_eq (hrep : h.Represents p out) : h.idle.front = p.idle.head?.map (·.block) := by
  have hfront : h.idle.front = p.idleBlocks.head? := hrep.idle.links.front
  rw [hfront, ConnectionPool.idleBlocks, List.head?_map]

theorem count_eq (hrep : h.Represents p out) : h.idle.count = p.idle.length := by
  have hcount : h.idle.count = p.idleBlocks.length := hrep.idle.links.count
  rw [hcount, ConnectionPool.idleBlocks, List.length_map]

theorem perm (hrep : h.Represents p out) (hperm : out.Perm out') : h.Represents p out' :=
  { hrep with
    items := by
      intro item hmem
      apply hrep.items
      rcases List.mem_append.mp hmem with hidle | hout
      · exact List.mem_append_left _ hidle
      · exact List.mem_append_right _ (hperm.mem_iff.mpr hout)
    sound := hrep.sound.perm hperm.symm }

/-! ### The list operations -/

/-- An operation on the list that moves connections between the list and the
hands of the caller. -/
theorem relink {idle' : IdleNodes α} (hrep : h.Represents p out)
    (heffect : IdleNodes.Effect h.idle idle' p.idleBlocks (items.map (·.block)))
    (hsound : ({ p with idle := items } : ConnectionPool α).Sound out')
    (hitems : ∀ item ∈ items ++ out', item ∈ p.idle ++ out) :
    ({ h with idle := idle' } : HeapPool α).Represents { p with idle := items } out' where
  idle := heffect.holds
  items := by
    intro item hmem
    exact (heffect.relinked.contents item.block).trans (hrep.items item (hitems item hmem))
  allocated := fun b => (heffect.relinked.mem_iff b).trans (hrep.allocated b)
  memPool := hrep.memPool
  activeCnt := hrep.activeCnt
  stats := hrep.stats
  mallocs := hrep.mallocs
  sound := hsound

theorem popBack {front : List (ListItem α)} (hrep : h.Represents p out)
    (hidle : p.idle = front ++ [item]) :
    ∃ idle', h.idle.popBack = .ok idle' ∧
      ({ h with idle := idle' } : HeapPool α).Represents { p with idle := front }
        (item :: out) := by
  obtain ⟨idle', hpop, heffect⟩ := IdleNodes.popBack_effect hrep.idle
  have hblocks : p.idleBlocks.dropLast = front.map (·.block) := by
    unfold ConnectionPool.idleBlocks
    rw [hidle, List.map_append, List.map_singleton, List.dropLast_concat]
  rw [hblocks] at heffect
  have hsound := hrep.sound.pop front [] hidle
  rw [List.append_nil] at hsound
  refine ⟨idle', hpop, hrep.relink heffect hsound ?_⟩
  intro x hx
  rw [hidle]
  simpa [or_assoc] using hx

theorem popFront {behind : List (ListItem α)} (hrep : h.Represents p out)
    (hidle : p.idle = item :: behind) :
    ∃ idle', h.idle.popFront = .ok idle' ∧
      ({ h with idle := idle' } : HeapPool α).Represents { p with idle := behind }
        (item :: out) := by
  obtain ⟨idle', hpop, heffect⟩ := IdleNodes.popFront_effect hrep.idle
  have hblocks : p.idleBlocks.tail = behind.map (·.block) := by
    unfold ConnectionPool.idleBlocks
    rw [hidle, List.map_cons, List.tail_cons]
  rw [hblocks] at heffect
  refine ⟨idle', hpop, hrep.relink heffect (hrep.sound.pop [] behind hidle) ?_⟩
  intro x hx
  rw [hidle]
  simp only [List.mem_append, List.mem_cons] at hx ⊢
  tauto

theorem pushFront (hrep : h.Represents p (item :: out)) :
    ∃ idle', h.idle.pushFront item.block = .ok idle' ∧
      ({ h with idle := idle' } : HeapPool α).Represents (p.pushFront item) out := by
  have hmem : item ∈ p.idle ++ item :: out := by simp
  obtain ⟨node, hnode, _⟩ := hrep.lookup hmem
  obtain ⟨idle', hpush, heffect⟩ := IdleNodes.pushFront_effect hrep.idle
    (Finmap.mem_of_lookup_eq_some hnode) hrep.sound.block_unlisted
  have hlisted : IdleNodes.Effect h.idle idle' p.idleBlocks ((item :: p.idle).map (·.block)) :=
    heffect
  refine ⟨idle', hpush, hrep.relink hlisted hrep.sound.pushFront ?_⟩
  intro x hx
  simp only [List.mem_append, List.mem_cons] at hx ⊢
  tauto

/-! ### `Gc` and the writes -/

theorem gc (hrep : h.Represents p (item :: out)) :
    ∃ h', h.gc item.block = .ok h' ∧ h'.Represents (p.gc item) out := by
  have hmem : item ∈ p.idle ++ item :: out := by simp
  obtain ⟨node, hnode, _⟩ := hrep.lookup hmem
  unfold HeapPool.gc
  rw [Memory.deref_some hnode, ok_do]
  refine ⟨_, rfl, hrep.idle, ?_, hrep.allocated, ?_, ?_, hrep.stats, hrep.mallocs, hrep.sound.gc⟩
  · intro x hx
    apply hrep.items
    simp only [List.mem_append, List.mem_cons] at hx ⊢
    tauto
  · exact congrArg (item.block :: ·) hrep.memPool
  · exact congrArg (· - 1) hrep.activeCnt

/-- A node is written into the block of a connection outside. -/
theorem insert {p' : ConnectionPool α} {node : ListNode α} {h' : HeapPool α}
    (hrep : h.Represents p out) (hsub : ∀ x ∈ out', x ∈ out) (hsound : p'.Sound (item :: out'))
    (hnode : node.unlinked = item.node)
    (hidle : p'.idle = p.idle)
    (hidle' : h'.idle = { h.idle with nodes := h.nodes.insert item.block node })
    (hallocated : ∀ b, b = item.block ∨ b < h.mallocs ↔ b < h'.mallocs)
    (hmemPool : h'.memPool = p'.memPool) (hactive : h'.activeCnt = p'.activeCnt)
    (hstats : h'.stats = p'.stats) (hmallocs : h'.mallocs = p'.mallocs) :
    h'.Represents p' (item :: out') := by
  have hapart := hsound.block_apart
  have hnew := hsound.block_unlisted
  unfold ConnectionPool.idleBlocks at hnew
  rw [hidle] at hapart hnew
  refine ⟨?_, ?_, ?_, hmemPool, hactive, hstats, hmallocs, hsound⟩
  · rw [hidle', ConnectionPool.idleBlocks, hidle]
    exact hrep.idle.insert hnew node
  · intro x hx
    unfold HeapPool.nodes
    rw [hidle']
    dsimp only
    by_cases heq : x = item
    · rw [heq, Finmap.lookup_insert, Option.map_some, hnode]
    · have hother : x ∈ p.idle ++ out' := by
        rw [hidle] at hx
        simp only [List.mem_append, List.mem_cons] at hx ⊢
        tauto
      rw [Finmap.lookup_insert_of_ne _ (hapart x hother)]
      apply hrep.items
      rcases List.mem_append.mp hother with hmem | hmem
      · exact List.mem_append_left _ hmem
      · exact List.mem_append_right _ (hsub x hmem)
  · intro b
    unfold HeapPool.nodes
    rw [hidle']
    dsimp only
    rw [Finmap.mem_insert, hrep.allocated]
    exact hallocated b

/-- An assignment to a connection outside. -/
theorem assign {item' : ListItem α} {field : ListNode α → ListNode α}
    (hrep : h.Represents p (item :: out)) (hblock : item'.block = item.block)
    (hserial : item'.serial = item.serial)
    (hfield : ∀ node, node.unlinked = item.node → (field node).unlinked = item'.node) :
    ∃ nodes, h.nodes.assign field (some item.block) = .ok nodes ∧
      (h.withNodes nodes).Represents p (item' :: out) := by
  have hmem : item ∈ p.idle ++ item :: out := by simp
  obtain ⟨node, hlookup, hnode⟩ := hrep.lookup hmem
  have hpresent : item.block < h.mallocs :=
    (hrep.allocated _).mp (Finmap.mem_of_lookup_eq_some hlookup)
  have hsound : p.Sound (item' :: out) := by
    apply hrep.sound.congr
    · rw [List.map_cons, List.map_cons, hblock]
    · rw [List.map_cons, List.map_cons, hserial]
  have hnodes : (h.withNodes (h.nodes.insert item.block (field node))).idle =
      { h.idle with nodes := h.nodes.insert item'.block (field node) } := by
    rw [hblock]
    rfl
  have hallocated : ∀ b, b = item'.block ∨ b < h.mallocs ↔ b < h.mallocs := by
    intro b
    rw [hblock]
    exact ⟨fun hor => hor.elim (fun heq => heq ▸ hpresent) id, Or.inr⟩
  exact ⟨_, Memory.assign_some hlookup field,
    hrep.insert (fun x hx => List.mem_cons_of_mem _ hx) hsound (hfield node hnode) rfl hnodes
      hallocated hrep.memPool hrep.activeCnt hrep.stats hrep.mallocs⟩

end HeapPool.Represents

end CloRedis
