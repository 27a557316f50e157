import CloRedis.Pool.Threads

/-!
Who owns a block while any number of threads use the pool. Two laws are kept
by every step of a thread and so by every interleaving: each block handed out
by `malloc` occurs exactly once among the idle list, the free list, the
connections borrowers hold and the hands of the calls in progress; and
`active_cnt_` is the number of idle and lent connections plus one for each
call that has counted a connection and not yet uncounted it.
-/

namespace CloRedis

open Library

variable {α T : Type*}

/-- The blocks local to the call a thread is in. -/
def Pc.blocks : Pc α → List Block
  | .countUp block => [block]
  | .construct block => [block]
  | .recycle item _ => [item.block]
  | .stamp item => [item.block]
  | .push item => [item.block]
  | _ => []

/-- The connections the call a thread is in has counted and not yet uncounted. -/
def Pc.counted : Pc α → Nat
  | .construct _ => 1
  | .recycle _ _ => 1
  | .countDown _ => 1
  | .stamp _ => 1
  | .push _ => 1
  | _ => 0

@[simp] theorem After.blocks_pc (next : After) : (next.pc : Pc α).blocks = [] := by
  cases next <;> rfl

@[simp] theorem After.counted_pc (next : After) : (next.pc : Pc α).counted = 0 := by
  cases next <;> rfl

def ConnectionPool.occurrences (p : ConnectionPool α) (b : Block) : Nat :=
  (p.idle.map (·.block)).count b + p.memPool.count b

def Thread.occurrences (t : Thread α) (b : Block) : Nat :=
  (t.held.map (·.block)).count b + t.pc.blocks.count b

/-- One for a block that has been handed out, zero for one that has not. -/
def ConnectionPool.allocated (p : ConnectionPool α) (b : Block) : Nat :=
  if b < p.mallocs then 1 else 0

theorem ConnectionPool.allocated_malloc (p : ConnectionPool α) (b : Block) :
    ({ p with mallocs := p.mallocs + 1 } : ConnectionPool α).allocated b =
      p.allocated b + [p.mallocs].count b := by
  unfold allocated
  by_cases hb : b = p.mallocs
  · subst hb
    simp
  · have hless : b < p.mallocs + 1 ↔ b < p.mallocs :=
      Nat.lt_succ_iff_lt_or_eq.trans (or_iff_left hb)
    simp [hless, Ne.symm hb]

/-- A step moves blocks between the pool and the thread; only `malloc` adds one. -/
theorem Thread.step_occurrences {o : ConnectionPoolOption} {label : Label α}
    {p p' : ConnectionPool α} {t t' : Thread α} (b : Block)
    (h : t.step o label p = .ok (p', t')) :
    p'.occurrences b + t'.occurrences b + p.allocated b =
      p.occurrences b + t.occurrences b + p'.allocated b := by
  have hmoves := step_moves h
  obtain ⟨pc, held⟩ := t
  obtain ⟨pc', held'⟩ := t'
  dsimp only at hmoves
  unfold ConnectionPool.occurrences Thread.occurrences
  cases hmoves with
  | callPut item rest next hperm hnext =>
      have hcount := (hperm.map (·.block)).count_eq b
      rcases hnext with rfl | rfl <;>
        simp only [Pc.blocks, List.map_cons, List.count_cons, List.count_nil] at hcount ⊢ <;> omega
  | admitted next _ hnext =>
      rcases hnext with rfl | rfl <;> rfl
  | expired front item now hidle _ =>
      apply congrArg (· + p.allocated b)
      simp [Pc.blocks, hidle, List.count_cons]
      omega
  | usable item behind now hidle _ =>
      apply congrArg (· + p.allocated b)
      simp [Pc.blocks, hidle, List.count_cons]
      omega
  | overage item behind now hidle _ =>
      apply congrArg (· + p.allocated b)
      simp [Pc.blocks, hidle, List.count_cons]
      omega
  | recycled block rest hpool =>
      apply congrArg (· + p.allocated b)
      simp [Pc.blocks, hpool, List.count_cons]
      omega
  | allocated =>
      rw [ConnectionPool.allocated_malloc]
      simp only [Pc.blocks, List.count_nil]
      ring
  | ready block active create object =>
      apply congrArg (· + p.allocated b)
      simp [Pc.blocks, ConnectionPool.construct, List.count_cons]
  | recycles item next =>
      apply congrArg (· + p.allocated b)
      simp [Pc.blocks, ConnectionPool.recycle, List.count_cons]
      omega
  | uncounted next =>
      rw [After.blocks_pc]
      rfl
  | pushed item =>
      apply congrArg (· + p.allocated b)
      simp [Pc.blocks, ConnectionPool.pushFront, List.count_cons]
      omega
  | evicted item kept last hsplit _ =>
      apply congrArg (· + p.allocated b)
      have hcount := congrArg (fun l => (l.map (·.block)).count b) hsplit
      simp only [List.map_cons, List.map_append, List.map_nil, List.count_append,
        List.count_cons, List.count_nil] at hcount
      simp only [Pc.blocks, List.count_cons, List.count_nil]
      omega
  | _ => rfl

/-- A step changes the counter by what it changes in the number of idle and
held connections and in the calls that have counted one. -/
theorem Thread.step_counted {o : ConnectionPoolOption} {label : Label α}
    {p p' : ConnectionPool α} {t t' : Thread α} (h : t.step o label p = .ok (p', t')) :
    (p'.idle.length : Int) + ((t'.held.length + t'.pc.counted : Nat) : Int) + p.activeCnt =
      p.idle.length + ((t.held.length + t.pc.counted : Nat) : Int) + p'.activeCnt := by
  have hmoves := step_moves h
  obtain ⟨pc, held⟩ := t
  obtain ⟨pc', held'⟩ := t'
  dsimp only at hmoves ⊢
  cases hmoves with
  | callPut item rest next hperm hnext =>
      have hlen := hperm.length_eq
      rcases hnext with rfl | rfl <;> simp only [Pc.counted, List.length_cons] at hlen ⊢ <;> omega
  | admitted next _ hnext =>
      rcases hnext with rfl | rfl <;> rfl
  | expired front item now hidle _ =>
      simp [Pc.counted, hidle]
      omega
  | usable item behind now hidle _ =>
      simp [Pc.counted, hidle]
      omega
  | overage item behind now hidle _ =>
      simp [Pc.counted, hidle]
      omega
  | counted block =>
      simp [Pc.counted, ConnectionPool.countUp]
      omega
  | ready block active create object => simp [Pc.counted, ConnectionPool.construct]
  | uncounted next =>
      rw [After.counted_pc]
      simp only [Pc.counted, ConnectionPool.countDown]
      omega
  | pushed item =>
      simp [Pc.counted, ConnectionPool.pushFront]
      omega
  | evicted item kept last hsplit _ =>
      have hlen := congrArg List.length hsplit
      simp only [List.length_cons, List.length_append, List.length_nil] at hlen
      simp only [Pc.counted]
      omega
  | _ => rfl

/-! ### Interleavings -/

/-- A pool and the threads that use it. -/
abbrev PoolThreads (T α : Type*) := Threads T (ConnectionPool α) (Thread α)

/-- A new pool; every thread is between calls and holds nothing. -/
def PoolThreads.start : PoolThreads T α := ⟨{}, fun _ => {}⟩

def PoolThreads.step [DecidableEq T] (o : ConnectionPoolOption) (s : PoolThreads T α)
    (op : T × Label α) : Except Disabled (PoolThreads T α) :=
  interleave (fun label p t => Thread.step o label p t) s op

/-- Where a block can be. -/
inductive Place (T : Type*) where
  | idleList
  | memPool
  | borrower (t : T)
  | call (t : T)
  deriving DecidableEq

def PoolThreads.occurrences (s : PoolThreads T α) (b : Block) : Place T → Nat
  | .idleList => (s.shared.idle.map (·.block)).count b
  | .memPool => s.shared.memPool.count b
  | .borrower t => ((s.own t).held.map (·.block)).count b
  | .call t => (s.own t).pc.blocks.count b

/-- The connections lent to borrowers. -/
def PoolThreads.lent [Fintype T] (s : PoolThreads T α) : Nat := ∑ t, (s.own t).held.length

/-- The connections calls in progress have counted and not yet uncounted. -/
def PoolThreads.inCalls [Fintype T] (s : PoolThreads T α) : Nat := ∑ t, (s.own t).pc.counted

/-- The occurrences of something in four places, two of them one for each
thread, add up to one only if it is in exactly one of them. -/
theorem single_place [Fintype T] {f : Place T → Nat}
    (h : f .idleList + f .memPool + ∑ t, (f (.borrower t) + f (.call t)) = 1) :
    ∃ place, f place = 1 ∧ ∀ other, other ≠ place → f other = 0 := by
  have hcases : f .idleList = 1 ∧ f .memPool = 0 ∧ ∑ t, (f (.borrower t) + f (.call t)) = 0 ∨
      f .idleList = 0 ∧ f .memPool = 1 ∧ ∑ t, (f (.borrower t) + f (.call t)) = 0 ∨
      f .idleList = 0 ∧ f .memPool = 0 ∧ ∑ t, (f (.borrower t) + f (.call t)) = 1 := by
    omega
  have hzero (hsum : ∑ t, (f (.borrower t) + f (.call t)) = 0) (t : T) :
      f (.borrower t) = 0 ∧ f (.call t) = 0 := by
    have := Finset.sum_eq_zero_iff.mp hsum t (Finset.mem_univ t)
    omega
  rcases hcases with ⟨hidle, hpool, hsum⟩ | ⟨hidle, hpool, hsum⟩ | ⟨hidle, hpool, hsum⟩
  · refine ⟨.idleList, hidle, fun other hother => ?_⟩
    cases other with
    | idleList => exact absurd rfl hother
    | memPool => exact hpool
    | borrower t => exact (hzero hsum t).1
    | call t => exact (hzero hsum t).2
  · refine ⟨.memPool, hpool, fun other hother => ?_⟩
    cases other with
    | idleList => exact hidle
    | memPool => exact absurd rfl hother
    | borrower t => exact (hzero hsum t).1
    | call t => exact (hzero hsum t).2
  · obtain ⟨t, ht, hothers⟩ := single_of_sum_eq_one hsum
    have hrest (u : T) (hu : u ≠ t) : f (.borrower u) = 0 ∧ f (.call u) = 0 := by
      have := hothers u hu
      omega
    have hsplit : f (.borrower t) = 1 ∧ f (.call t) = 0 ∨
        f (.borrower t) = 0 ∧ f (.call t) = 1 := by omega
    rcases hsplit with ⟨hborrower, hcall⟩ | ⟨hborrower, hcall⟩
    · refine ⟨.borrower t, hborrower, fun other hother => ?_⟩
      cases other with
      | idleList => exact hidle
      | memPool => exact hpool
      | borrower u => exact (hrest u (fun heq => hother (by rw [heq]))).1
      | call u =>
          by_cases hu : u = t
          · rw [hu]
            exact hcall
          · exact (hrest u hu).2
    · refine ⟨.call t, hcall, fun other hother => ?_⟩
      cases other with
      | idleList => exact hidle
      | memPool => exact hpool
      | borrower u =>
          by_cases hu : u = t
          · rw [hu]
            exact hborrower
          · exact (hrest u hu).1
      | call u => exact (hrest u (fun heq => hother (by rw [heq]))).2

namespace PoolThreads

variable [DecidableEq T] [Fintype T] {o : ConnectionPoolOption} {ops : List (T × Label α)}
  {s : PoolThreads T α}

theorem occurrences_balance (hrun : run (step o) start ops = .ok s) (b : Block) :
    s.shared.occurrences b + ∑ t, (s.own t).occurrences b = s.shared.allocated b := by
  have hstep : ∀ label (p : ConnectionPool α) t p' t', Thread.step o label p t = .ok (p', t') →
      p'.occurrences b + t'.occurrences b + p.allocated b =
        p.occurrences b + t.occurrences b + p'.allocated b :=
    fun _ _ _ _ _ h => Thread.step_occurrences b h
  refine run_balance (fun p => p.occurrences b) (fun p => p.allocated b)
    (fun t => t.occurrences b) hstep ?_ hrun
  simp [start, ConnectionPool.occurrences, Thread.occurrences, ConnectionPool.allocated, Pc.blocks]

/-- The counter is the idle and lent connections and those in calls. -/
def Counted (s : PoolThreads T α) : Prop :=
  s.shared.activeCnt = s.shared.idle.length + s.lent + s.inCalls

omit [DecidableEq T] in
theorem counted_iff : s.Counted ↔
    (s.shared.idle.length : Int) +
      ∑ t, (((s.own t).held.length + (s.own t).pc.counted : Nat) : Int) = s.shared.activeCnt := by
  simp only [Counted, lent, inCalls, Nat.cast_add, Finset.sum_add_distrib, Nat.cast_sum, add_assoc]
  exact eq_comm

omit [DecidableEq T] in
theorem start_counted : (start : PoolThreads T α).Counted := by
  simp [start, Counted, lent, inCalls, Pc.counted]

theorem step_counted {s' : PoolThreads T α} {op : T × Label α} (h : s.Counted)
    (hstep : step o s op = .ok s') : s'.Counted := by
  rw [counted_iff] at h ⊢
  exact interleave_balance (fun p : ConnectionPool α => (p.idle.length : Int))
    (fun p => p.activeCnt) (fun t : Thread α => ((t.held.length + t.pc.counted : Nat) : Int))
    (fun _ _ _ _ _ hown => Thread.step_counted hown) h hstep

theorem run_counted (hrun : run (step o) start ops = .ok s) : s.Counted :=
  run_invariant (I := Counted) (fun _ _ _ hs hop => step_counted hs hop) start_counted hrun

/-- In every state any interleaving reaches, every block ever allocated is in
exactly one place, and the counter is the number of idle and lent connections
plus those the calls in progress account for. -/
theorem blocks_partitioned (hrun : run (step o) start ops = .ok s) :
    (∀ b, b < s.shared.mallocs →
      ∃ place, s.occurrences b place = 1 ∧
        ∀ other, other ≠ place → s.occurrences b other = 0) ∧
    s.shared.activeCnt = s.shared.idle.length + s.lent + s.inCalls ∧
    ((∀ t, (s.own t).pc = .ready) →
      s.shared.activeCnt - s.shared.connInPool = s.lent) := by
  have hcount := run_counted hrun
  refine ⟨?_, hcount, ?_⟩
  · intro b hb
    have hbalance := occurrences_balance hrun b
    simp only [ConnectionPool.allocated, hb, if_true] at hbalance
    exact single_place hbalance
  · intro hready
    have hnone : s.inCalls = 0 := by
      simp [inCalls, hready, Pc.counted]
    unfold Counted at hcount
    rw [hcount, hnone]
    simp only [ConnectionPool.connInPool, Nat.cast_zero]
    ring

/-- One thread borrows a new connection, then the other counts one. -/
def borrowThenCount : List (Bool × Label Unit) :=
  [(true, .callGet), (true, .next), (true, .read 0), (true, .next), (true, .malloc true),
    (true, .next), (true, .init 0 0 true ()), (false, .callGet), (false, .next),
    (false, .read 0), (false, .next), (false, .malloc true), (false, .next)]

theorem blocks_partitioned_two_threads :
    ∃ s : PoolThreads Bool Unit, run (step {}) start borrowThenCount = .ok s ∧
      (∀ b, b < s.shared.mallocs →
        ∃ place, s.occurrences b place = 1 ∧
          ∀ other, other ≠ place → s.occurrences b other = 0) ∧
      s.shared.activeCnt = s.shared.idle.length + s.lent + s.inCalls ∧
      ((∀ t, (s.own t).pc = .ready) →
        s.shared.activeCnt - s.shared.connInPool = s.lent) :=
  ⟨_, rfl, blocks_partitioned (rfl : run (step {}) start borrowThenCount = .ok _)⟩

end PoolThreads

end CloRedis
