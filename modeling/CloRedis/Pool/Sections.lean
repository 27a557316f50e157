import CloRedis.Pool.Locks

/-!
What the steps on the mutexes leave out of the picture. A thread that locks or
unlocks is at the same indivisible part of its call before and after, and every
other statement is that part, so a run with the mutexes is a run of the
sections with some of its steps left out.
-/

namespace CloRedis

open Library

variable {T α : Type*}

/-- The indivisible part a thread is at when locks and unlocks take no step. -/
def LockPc.part : LockPc α → Pc α
  | .idle | .scanUsable _ | .getExit _ | .putUnlock none => .ready
  | .admission => .admission
  | .sweepLock | .sweepHead => .sweep
  | .sweepDone | .scanLock | .scanHead => .scan
  | .scanDone | .takeLock | .takeBlock => .takeBlock
  | .takeUnlock none | .malloc => .malloc
  | .takeUnlock (some block) | .countUp block => .countUp block
  | .construct block => .construct block
  | .sweepPopped item => .recycle item .sweep
  | .scanOverage item => .recycle item .scan
  | .putUnlock (some evicted) => .recycle evicted .finish
  | .gcLock item next | .gcPush item next => .recycle item next
  | .gcUnlock next | .countDown next => .countDown next
  | .stamp item => .stamp item
  | .putLock item | .putPush item => .push item

/-- The connection the call is about to return. -/
def LockPc.result : LockPc α → Option (ListItem α)
  | .scanUsable item => some item
  | .getExit result => result
  | _ => none

namespace LockThread

def part (t : LockThread T α) : Thread α := ⟨t.pc.part, t.pc.result.toList ++ t.held⟩

/-- A step on a mutex is no step of the sections. -/
theorem part_same {sh sh' : LockedPool T α} {t t' : LockThread T α} {next : LockPc α}
    (h : sh'.pool = sh.pool ∧ t'.pc = next ∧ t'.held = t.held) (hpart : next.part = t.pc.part)
    (hresult : next.result = t.pc.result) : sh'.pool = sh.pool ∧ t'.part = t.part := by
  obtain ⟨hpool, hpc, hheld⟩ := h
  refine ⟨hpool, ?_⟩
  unfold part
  rw [hpc, hheld, hpart, hresult]

variable [DecidableEq T]

/-- What a lock or an unlock leaves as it is. -/
theorem lock_ok {sh sh' : LockedPool T α} {t t' : LockThread T α} {l : PoolLock}
    {next : LockPc α} (h : t.lock l next sh = .ok (sh', t')) :
    sh'.pool = sh.pool ∧ t'.pc = next ∧ t'.held = t.held := by
  unfold lock at h
  cases hacquire : acquire sh.owner t.self l with
  | error e => simp [hacquire] at h
  | ok owner =>
      rw [hacquire] at h
      cases h
      exact ⟨rfl, rfl, rfl⟩

theorem unlock_ok {sh sh' : LockedPool T α} {t t' : LockThread T α} {l : PoolLock}
    {next : LockPc α} (h : t.unlock l next sh = .ok (sh', t')) :
    sh'.pool = sh.pool ∧ t'.pc = next ∧ t'.held = t.held := by
  unfold unlock at h
  cases hrelease : release sh.owner t.self l with
  | error e => simp [hrelease] at h
  | ok owner =>
      rw [hrelease] at h
      cases h
      exact ⟨rfl, rfl, rfl⟩

theorem lckLock_ok {sh sh' : LockedPool T α} {t t' : LockThread T α} {next : LockPc α}
    (h : t.lckLock next sh = .ok (sh', t')) :
    sh'.pool = sh.pool ∧ t'.pc = next ∧ t'.held = t.held := by
  unfold lckLock at h
  split at h
  · cases h
  · have hlock := lock_ok h
    exact hlock

theorem lckUnlock_ok {sh sh' : LockedPool T α} {t t' : LockThread T α} {next : LockPc α}
    (h : t.lckUnlock next sh = .ok (sh', t')) :
    sh'.pool = sh.pool ∧ t'.pc = next ∧ t'.held = t.held := by
  unfold lckUnlock at h
  split at h
  · have hunlock := unlock_ok h
    exact hunlock
  · cases h

theorem step_part {o : ConnectionPoolOption} {label : Label α} {sh sh' : LockedPool T α}
    {t t' : LockThread T α} (h : t.step o label sh = .ok (sh', t')) :
    (sh'.pool = sh.pool ∧ t'.part = t.part) ∨
      Thread.step o label sh.pool t.part = .ok (sh'.pool, t'.part) := by
  obtain ⟨self, pc, lck, held⟩ := t
  cases pc with
  | idle =>
      cases label with
      | callGet =>
          cases h
          exact Or.inr rfl
      | callPut block isOk =>
          right
          cases htake : takeFirst (isBlock block) held with
          | none => simp [step, htake] at h
          | some r =>
              obtain ⟨item, rest⟩ := r
              simp only [step, htake] at h
              simp only [part, LockPc.part, LockPc.result, Option.toList_none, List.nil_append,
                Thread.step, htake]
              cases isOk with
              | true =>
                  cases h
                  rfl
              | false =>
                  cases h
                  rfl
      | _ => cases h
  | admission =>
      cases label with
      | next =>
          right
          simp only [step] at h
          simp only [part, LockPc.part, LockPc.result, Option.toList_none, List.nil_append,
            Thread.step]
          split at h
          · rename_i hadmits
            rw [if_pos hadmits]
            split at h
            · rename_i hlimit
              cases h
              rw [if_pos hlimit]
              rfl
            · rename_i hlimit
              cases h
              rw [if_neg hlimit]
              rfl
          · rename_i hadmits
            cases h
            rw [if_neg hadmits]
            rfl
      | _ => cases h
  | sweepLock | scanLock =>
      cases label with
      | next =>
          exact Or.inl (part_same (lckLock_ok h) rfl rfl)
      | _ => cases h
  | sweepHead =>
      cases label with
      | read now =>
          right
          simp only [step] at h
          simp only [part, LockPc.part, LockPc.result, Option.toList_none, List.nil_append,
            Thread.step]
          cases hsection : sh.pool.sweepSection o now with
          | exhausted =>
              rw [hsection] at h
              cases h
              rfl
          | unexpired =>
              rw [hsection] at h
              cases h
              rfl
          | expired item p =>
              rw [hsection] at h
              cases h
              rfl
      | _ => cases h
  | sweepPopped _ | sweepDone | scanUsable _ | scanOverage _ | scanDone =>
      cases label with
      | next =>
          exact Or.inl (part_same (lckUnlock_ok h) rfl rfl)
      | _ => cases h
  | scanHead =>
      cases label with
      | read now =>
          right
          simp only [step] at h
          simp only [part, LockPc.part, LockPc.result, Option.toList_none, List.nil_append,
            Thread.step]
          cases hsection : sh.pool.scanSection o now with
          | exhausted =>
              rw [hsection] at h
              cases h
              rfl
          | usable item p =>
              rw [hsection] at h
              cases h
              rfl
          | overage item p =>
              rw [hsection] at h
              cases h
              rfl
      | _ => cases h
  | takeLock | gcLock _ _ | putLock _ =>
      cases label with
      | next =>
          exact Or.inl (part_same (lock_ok h) rfl rfl)
      | _ => cases h
  | takeBlock =>
      cases label with
      | next =>
          right
          cases h
          simp only [part, LockPc.part, LockPc.result, Option.toList_none, List.nil_append,
            Thread.step]
          cases htake : sh.pool.takeBlock with
          | mk found p =>
              cases found with
              | none => rfl
              | some block => rfl
      | _ => cases h
  | takeUnlock found | putUnlock found =>
      cases label with
      | next =>
          cases found with
          | none => exact Or.inl (part_same (unlock_ok h) rfl rfl)
          | some _ => exact Or.inl (part_same (unlock_ok h) rfl rfl)
      | _ => cases found <;> cases h
  | malloc =>
      cases label with
      | malloc ok =>
          cases ok with
          | true =>
              cases h
              exact Or.inr rfl
          | false =>
              cases h
              exact Or.inr rfl
      | _ => cases h
  | countUp _ | gcPush _ _ =>
      cases label with
      | next =>
          cases h
          exact Or.inr rfl
      | _ => cases h
  | construct _ =>
      cases label with
      | init active create ok object =>
          cases ok with
          | true =>
              cases h
              exact Or.inr rfl
          | false =>
              cases h
              exact Or.inr rfl
      | _ => cases h
  | getExit _ =>
      cases label with
      | next =>
          left
          simp only [step, leave] at h
          split at h
          · obtain ⟨hpool, hpc, hheld⟩ := lckUnlock_ok h
            refine ⟨hpool, ?_⟩
            unfold part
            rw [hpc, hheld]
            rfl
          · cases h
            exact ⟨rfl, rfl⟩
      | _ => cases h
  | gcUnlock _ =>
      cases label with
      | next =>
          exact Or.inl (part_same (unlock_ok h) rfl rfl)
      | _ => cases h
  | countDown next =>
      cases label with
      | next =>
          right
          cases h
          cases next with
          | _ => rfl
      | _ => cases h
  | stamp _ =>
      cases label with
      | read now =>
          cases h
          exact Or.inr rfl
      | _ => cases h
  | putPush item =>
      cases label with
      | next =>
          right
          cases h
          simp only [part, LockPc.part, LockPc.result, Option.toList_none, List.nil_append,
            Thread.step]
          cases hpush : sh.pool.pushSection o item with
          | mk evicted p =>
              cases evicted with
              | none => rfl
              | some last => rfl
      | _ => cases h

end LockThread

namespace LockedThreads

/-- The pool and the threads without the mutexes. -/
def parts (s : LockedThreads T α) : PoolThreads T α := ⟨s.shared.pool, fun t => (s.own t).part⟩

variable [DecidableEq T] {o : ConnectionPoolOption} {s s' : LockedThreads T α}
  {ops : List (T × Label α)}

theorem step_parts {op : T × Label α} (hstep : step o s op = .ok s') :
    s'.parts = s.parts ∨ PoolThreads.step o s.parts op = .ok s'.parts := by
  obtain ⟨t, label⟩ := op
  obtain ⟨shared, own, hown, rfl⟩ := interleave_ok.mp hstep
  have hparts : parts ⟨shared, Function.update s.own t own⟩ =
      ⟨shared.pool, Function.update s.parts.own t own.part⟩ := by
    unfold parts
    congr 1
    exact Function.comp_update LockThread.part s.own t own
  rcases LockThread.step_part hown with ⟨hpool, hsame⟩ | hpart
  · left
    rw [hparts, hpool, hsame]
    exact congrArg (Threads.mk s.shared.pool) (Function.update_eq_self t s.parts.own)
  · right
    rw [hparts]
    exact interleave_ok.mpr ⟨_, _, hpart, rfl⟩

/-- Every run with the mutexes is a run of the sections between them. -/
theorem run_parts (hrun : run (step o) s ops = .ok s') :
    ∃ ops', ops'.Sublist ops ∧ run (PoolThreads.step o) s.parts ops' = .ok s'.parts :=
  run_stutters (fun _ _ _ hstep => step_parts hstep) hrun

theorem run_parts_of_contention :
    ∃ (s : LockedThreads Bool Unit) (ops' : List (Bool × Label Unit)),
      run (step { idleTimeoutMs := 5 }) (start {} fun _ => []) contendingCalls = .ok s ∧
      ops'.Sublist contendingCalls ∧
      run (PoolThreads.step { idleTimeoutMs := 5 }) PoolThreads.start ops' = .ok s.parts := by
  obtain ⟨s, hrun⟩ : ∃ s : LockedThreads Bool Unit,
      run (step { idleTimeoutMs := 5 }) (start {} fun _ => []) contendingCalls = .ok s :=
    ⟨_, rfl⟩
  obtain ⟨ops', hsub, hrun'⟩ := run_parts hrun
  exact ⟨s, ops', hrun, hsub, hrun'⟩

end LockedThreads

end CloRedis
