import CloRedis.Pool.Ownership

/-!
The cap under concurrency. The test at the top of `Get` reads the counter, and
the counter is raised much later, so a `Get` that has passed the test may still
count a connection. The cap holds in every state as long as each test that
lets a `Get` pass would also have let it pass with those pending calls
counted; without that condition two threads exceed it.
-/

namespace CloRedis

open Library

variable {α T : Type*}

/-- One for a `Get` that has passed the test and may still count a connection. -/
def Pc.pending : Pc α → Nat
  | .sweep => 1
  | .scan => 1
  | .recycle _ .sweep => 1
  | .recycle _ .scan => 1
  | .countDown .sweep => 1
  | .countDown .scan => 1
  | .takeBlock => 1
  | .malloc => 1
  | .countUp _ => 1
  | _ => 0

/-- Only passing the test raises the counter together with the pending calls. -/
theorem Thread.step_pending {o : ConnectionPoolOption} {label : Label α}
    {p p' : ConnectionPool α} {t t' : Thread α} (h : t.step o label p = .ok (p', t')) :
    (t.pc = .admission ∧ p.admits o = true ∧ p' = p ∧ t'.pc.pending = 1) ∨
      p'.activeCnt + t'.pc.pending ≤ p.activeCnt + t.pc.pending := by
  have hmoves := step_moves h
  obtain ⟨pc, held⟩ := t
  obtain ⟨pc', held'⟩ := t'
  dsimp only at hmoves ⊢
  cases hmoves with
  | callPut item rest next _ hnext =>
      right
      rcases hnext with rfl | rfl <;> exact le_rfl
  | admitted next hadmits hnext =>
      left
      refine ⟨rfl, hadmits, rfl, ?_⟩
      rcases hnext with rfl | rfl <;> rfl
  | expired front item now _ _ => exact Or.inr le_rfl
  | usable item behind now _ _ =>
      right
      simp [Pc.pending]
  | overage item behind now _ _ => exact Or.inr le_rfl
  | recycled block rest _ => exact Or.inr le_rfl
  | outOfMemory =>
      right
      simp [Pc.pending, ConnectionPool.mallocFailed]
  | counted block =>
      right
      simp [Pc.pending, ConnectionPool.countUp]
  | ready block active create object => exact Or.inr le_rfl
  | failed block active create object => exact Or.inr le_rfl
  | recycles item next =>
      right
      cases next <;> exact le_rfl
  | uncounted next =>
      right
      cases next <;> simp [Pc.pending, After.pc, ConnectionPool.countDown]
  | pushed item => exact Or.inr le_rfl
  | evicted item kept last _ _ => exact Or.inr le_rfl
  | _ => exact Or.inr le_rfl

namespace PoolThreads

variable [DecidableEq T] [Fintype T] {o : ConnectionPoolOption} {ops : List (T × Label α)}
  {s : PoolThreads T α}

/-- The calls of `Get` that have passed the test and may still count. -/
def pending (s : PoolThreads T α) : Nat := ∑ t, (s.own t).pc.pending

/-- A test that lets a `Get` pass sees room for the pending calls as well. -/
def AdmissionSeesPending (o : ConnectionPoolOption) (s : PoolThreads T α) (op : T × Label α) :
    Prop :=
  (s.own op.1).pc = .admission → s.shared.admits o = true →
    s.shared.activeCnt + s.pending < o.maxActive

instance [DecidableEq α] (o : ConnectionPoolOption) (s : PoolThreads T α) (op : T × Label α) :
    Decidable (AdmissionSeesPending o s op) :=
  inferInstanceAs (Decidable (_ → _ → _))

theorem step_room {s' : PoolThreads T α} {op : T × Label α}
    (h : s.shared.activeCnt + s.pending ≤ o.maxActive) (hsees : AdmissionSeesPending o s op)
    (hstep : step o s op = .ok s') : s'.shared.activeCnt + s'.pending ≤ o.maxActive := by
  obtain ⟨shared, own, hown, rfl⟩ := interleave_ok.mp hstep
  have hsum := sum_own_update (fun t : Thread α => t.pc.pending) s.own op.1 own
  unfold pending at h ⊢
  rcases Thread.step_pending hown with ⟨hpc, hadmits, rfl, hpending⟩ | hle
  · have hroom := hsees hpc hadmits
    unfold pending at hroom
    dsimp only at hsum ⊢
    omega
  · dsimp only at hsum ⊢
    omega

/-- In every run whose admission tests all see the pending calls, no state has
more than `max_active` connections, by the counter or in fact. -/
theorem cap_holds_throughout (hcap : 0 < o.maxActive)
    (halong : Along (step o) (AdmissionSeesPending o) (start : PoolThreads T α) ops) :
    Throughout (step o)
      (fun s => s.shared.activeCnt ≤ o.maxActive ∧
        (s.shared.idle.length : Int) + s.lent + s.inCalls ≤ o.maxActive)
      (start : PoolThreads T α) ops := by
  refine throughout_of_along
    (I := fun s => s.Counted ∧ s.shared.activeCnt + s.pending ≤ o.maxActive) ?_ ?_ ?_ halong
  · rintro s ⟨hcount, hroom⟩
    unfold Counted at hcount
    omega
  · rintro s op s' ⟨hcount, hroom⟩ hsees hstep
    exact ⟨step_counted hcount hstep, step_room hroom hsees hstep⟩
  · refine ⟨start_counted, ?_⟩
    simp [start, pending, Pc.pending]
    omega

/-- Two threads fill a pool for two together, a third `Get` is refused, one
thread returns its connection and the other one destroys its own, and both
borrow again: the idle connection, and a new one in the block left behind. -/
def filledAndReturned : List (Bool × Label Unit) :=
  [(true, .callGet), (false, .callGet), (true, .next), (false, .next),
    (true, .read 1), (true, .next), (true, .malloc true), (false, .read 1), (false, .next),
    (false, .malloc true), (false, .next), (true, .next), (true, .init 1 1 true ()),
    (false, .init 1 1 true ()), (true, .callGet), (true, .next),
    (false, .callPut 1 true), (true, .callPut 0 false), (false, .read 5), (true, .next),
    (false, .next), (true, .next), (false, .callGet), (false, .next), (false, .read 6),
    (true, .callGet), (true, .next), (true, .read 7), (true, .next), (true, .next),
    (true, .init 7 7 true ())]

theorem cap_holds_throughout_filled :
    (∃ s : PoolThreads Bool Unit,
      run (step { maxActive := 2 }) start filledAndReturned = .ok s ∧
      s.shared.activeCnt = 2 ∧ s.shared.stats.overloadError = 1 ∧
      (s.own true).held.map (·.serial) = [2] ∧ (s.own false).held.map (·.serial) = [1]) ∧
    Throughout (step { maxActive := 2 })
      (fun s : PoolThreads Bool Unit => s.shared.activeCnt ≤ 2 ∧
        (s.shared.idle.length : Int) + s.lent + s.inCalls ≤ 2)
      start filledAndReturned := by
  refine ⟨⟨_, rfl, rfl, rfl, rfl, rfl⟩, ?_⟩
  exact cap_holds_throughout (o := { maxActive := 2 }) (by decide) (by decide +kernel)

/-- Both threads pass the test before either of them counts its connection. -/
def bothAdmitted : List (Bool × Label Unit) :=
  [(true, .callGet), (false, .callGet), (true, .next), (false, .next),
    (true, .read 0), (true, .next), (true, .malloc true), (true, .next),
    (false, .read 0), (false, .next), (false, .malloc true), (false, .next)]

/-- A pool that allows one connection reaches a state with two. -/
theorem cap_exceeded :
    ∃ s : PoolThreads Bool Unit,
      run (step { maxActive := 1 }) start bothAdmitted = .ok s ∧
      s.shared.activeCnt = 2 ∧ ¬s.shared.activeCnt ≤ 1 :=
  ⟨_, rfl, rfl, by decide⟩

end PoolThreads

end CloRedis
