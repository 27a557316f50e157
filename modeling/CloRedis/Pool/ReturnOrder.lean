import CloRedis.Pool.MaxIdle
import CloRedis.Pool.Times

/-!
The order of the idle list by time of return. The sweep of `Get` stops at the
first connection that has not timed out, so it finds all that have only if the
list is sorted by `active_time`. `Put` stamps a connection before it takes the
mutex, and another `Put` that stamps later may push first. The list is sorted
throughout a run exactly if no push puts a connection in front of one with a
later stamp.
-/

namespace CloRedis

open Library

variable {α T : Type*}

/-- A value `gettimeofday` can lead to. -/
def ClockValue (now : UInt64) : Prop := ∃ tv, now = getCurrentTimeMs tv

/-- The clock readings in a step. -/
def Label.readings : Label α → List UInt64
  | .read now => [now]
  | .init active create _ _ => [active, create]
  | _ => []

def Label.Real (label : Label α) : Prop := ∀ now ∈ label.readings, ClockValue now

theorem ClockValue.stamp_nonneg {now : UInt64} (h : ClockValue now) : 0 ≤ now.toInt64.toInt := by
  obtain ⟨tv, rfl⟩ := h
  rw [toInt_toInt64 (getCurrentTimeMs_lt tv)]
  exact Int.natCast_nonneg _

theorem clockValue_of_lt {now : UInt64} (h : now.toNat < 2 ^ 63) : ClockValue now := by
  refine ⟨some ⟨now.toNat / 1000, now.toNat % 1000 * 1000, by omega, by omega⟩, ?_⟩
  apply UInt64.toNat_inj.mp
  simp only [getCurrentTimeMs, UInt64.toNat_ofNat']
  omega

theorem ClockValue.timedOut_iff {now : UInt64} (h : ClockValue now) {o : ConnectionPoolOption}
    {item : ListItem α} (hstamp : 0 ≤ item.activeTime.toInt) (hlimit : 0 < o.idleTimeoutMs) :
    item.timedOut o now = true ↔ item.activeTime.toInt + o.idleTimeoutMs.toInt < now.toNat := by
  obtain ⟨tv, rfl⟩ := h
  have htest : item.timedOut o (Clock.read (fun _ => tv) 0) = true ↔
      item.activeTime.toInt + o.idleTimeoutMs.toInt < Clock.ms (fun _ => tv) 0 :=
    ListItem.timedOut_iff hstamp hlimit
  exact htest

theorem Thread.step_stamp {o : ConnectionPoolOption} {label : Label α} {p p' : ConnectionPool α}
    {t t' : Thread α} {item : ListItem α} (hpc : t.pc = .stamp item)
    (h : t.step o label p = .ok (p', t')) :
    ∃ now ∈ label.readings, t'.pc = .push (item.stamp now) := by
  obtain ⟨pc, held⟩ := t
  subst hpc
  cases label with
  | read now =>
      cases h
      exact ⟨now, List.mem_singleton_self now, rfl⟩
  | _ => simp [step] at h

/-- A push is always possible. -/
theorem Thread.step_push_ok {o : ConnectionPoolOption} (p : ConnectionPool α) {t : Thread α}
    {item : ListItem α} (hpc : t.pc = .push item) : ∃ r, t.step o .next p = .ok r := by
  obtain ⟨pc, held⟩ := t
  subst hpc
  cases hsection : p.pushSection o item with
  | mk evicted p₁ =>
      simp only [step, hsection]
      cases evicted <;> exact ⟨_, rfl⟩

/-- A thread comes to its push by stamping. -/
theorem Thread.Moves.to_push {o : ConnectionPoolOption} {p p' : ConnectionPool α}
    {held held' : List (ListItem α)} {item : ListItem α} {pc : Pc α}
    (h : Moves o p held pc p' (.push item) held') : ∃ raw, pc = .stamp raw := by
  generalize hpc' : Pc.push item = pc' at h
  cases h with
  | callPut _ _ _ _ hnext => rcases hnext with rfl | rfl <;> cases hpc'
  | admitted _ _ hnext => rcases hnext with rfl | rfl <;> cases hpc'
  | uncounted next => cases next <;> cases hpc'
  | stamped raw now => exact ⟨raw, rfl⟩
  | _ => cases hpc'

namespace PoolThreads

variable [DecidableEq T] {o : ConnectionPoolOption} {ops : List (T × Label α)}
  {s s' : PoolThreads T α}

/-- Front to back, the connections were returned earlier and earlier. -/
def Ordered (s : PoolThreads T α) : Prop :=
  s.shared.idle.Pairwise fun a b => b.activeTime.toInt ≤ a.activeTime.toInt

instance (s : PoolThreads T α) : Decidable s.Ordered :=
  inferInstanceAs (Decidable (List.Pairwise _ _))

/-- When a section of the sweep does not go on, nothing in the list has timed
out at its reading. -/
def SweepsAll (o : ConnectionPoolOption) (s : PoolThreads T α) : Prop :=
  ∀ now, ClockValue now → 0 < o.idleTimeoutMs →
    (∀ item p, s.shared.sweepSection o now ≠ .expired item p) →
    ∀ item ∈ s.shared.idle, item.timedOut o now = false

/-- A push does not put a connection in front of one that was stamped later,
unless it evicts it. -/
def PushesInOrder (o : ConnectionPoolOption) (s : PoolThreads T α) (op : T × Label α) : Prop :=
  ∀ item ∈ pushing s op, o.maxIdle ≠ 1 →
    ∀ front ∈ s.shared.idle.head?, front.activeTime.toInt ≤ item.activeTime.toInt

instance (o : ConnectionPoolOption) (s : PoolThreads T α) (op : T × Label α) :
    Decidable (PushesInOrder o s op) :=
  inferInstanceAs (Decidable (∀ item ∈ pushing s op, _ → _))

/-- The stamps in the list, and those about to be pushed, are clock values. -/
def Stamped (s : PoolThreads T α) : Prop :=
  (∀ item ∈ s.shared.idle, 0 ≤ item.activeTime.toInt) ∧
    ∀ t item, (s.own t).pc = .push item → 0 ≤ item.activeTime.toInt

theorem step_stamped {op : T × Label α} (hreal : op.2.Real) (h : s.Stamped)
    (hstep : step o s op = .ok s') : s'.Stamped := by
  obtain ⟨shared, own, hown, rfl⟩ := interleave_ok.mp hstep
  constructor
  · intro item hitem
    by_cases hpush : ∃ item, (s.own op.1).pc = .push item
    · obtain ⟨returned, hpc⟩ := hpush
      obtain ⟨_, rfl, _⟩ := Thread.step_push hpc hown
      have hmem : item ∈ returned :: s.shared.idle := by
        rcases ConnectionPool.pushSection_cases o s.shared returned with
          ⟨hsection, _⟩ | ⟨kept, evicted, hsplit, _, hsection⟩
        · rwa [hsection] at hitem
        · rw [hsection] at hitem
          rw [hsplit]
          exact List.mem_append_left _ hitem
      rcases List.mem_cons.mp hmem with rfl | hold
      · exact h.2 op.1 item hpc
      · exact h.1 item hold
    · have hsub := Thread.step_idle (not_exists.mp hpush) hown
      exact h.1 item (hsub.subset hitem)
  · intro t item hpc
    by_cases ht : t = op.1
    · subst ht
      dsimp only at hpc
      rw [Function.update_self] at hpc
      have hmoves := Thread.step_moves hown
      rw [hpc] at hmoves
      obtain ⟨raw, hraw⟩ := hmoves.to_push
      obtain ⟨now, hnow, hpushes⟩ := Thread.step_stamp hraw hown
      cases hpc.symm.trans hpushes
      exact (hreal now hnow).stamp_nonneg
    · dsimp only at hpc
      rw [Function.update_of_ne ht] at hpc
      exact h.2 t item hpc

omit [DecidableEq T] in
/-- In a sorted list the last connection is the first to time out. -/
theorem Ordered.sweepsAll (h : s.Ordered) (hstamped : s.Stamped) : s.SweepsAll o := by
  intro now hnow hlimit hstops item hitem
  cases hsection : s.shared.sweepSection o now with
  | exhausted =>
      rw [ConnectionPool.sweepSection_exhausted hsection] at hitem
      cases hitem
  | expired last p => exact absurd hsection (hstops last p)
  | unexpired =>
      obtain ⟨last, hlast, hfresh⟩ := ConnectionPool.sweepSection_unexpired hsection
      have hlastIdle := List.mem_of_getLast? hlast
      rw [Bool.eq_false_iff, ne_eq, hnow.timedOut_iff (hstamped.1 last hlastIdle) hlimit] at hfresh
      have hbound : (now.toNat : Int) - o.idleTimeoutMs.toInt ≤ last.activeTime.toInt := by omega
      have hall := not_lt_of_getLast? h hlast hbound item hitem
      rw [Bool.eq_false_iff, ne_eq, hnow.timedOut_iff (hstamped.1 item hitem) hlimit]
      omega

omit [DecidableEq T] in
/-- Unless there is room for one connection only, a push leaves the pushed
connection and the one it found at the front. -/
theorem push_front (hbounded : s.Bounded o) (hroom : o.maxIdle ≠ 1) (item : ListItem α) :
    List.Sublist (item :: s.shared.idle.take 1) (s.shared.pushSection o item).2.idle := by
  have htwo : item :: s.shared.idle.take 1 = (item :: s.shared.idle).take 2 := rfl
  by_cases hpos : 0 < o.maxIdle
  · rw [ConnectionPool.pushSection_take hpos (hbounded hpos), htwo]
    apply List.take_sublist_take_left
    omega
  · rw [ConnectionPool.pushSection_unlimited (not_lt.mp hpos), htwo]
    exact List.take_sublist _ _

theorem push_sublist (o : ConnectionPoolOption) (p : ConnectionPool α) (item : ListItem α) :
    List.Sublist (p.pushSection o item).2.idle (item :: p.idle) := by
  rcases ConnectionPool.pushSection_cases o p item with
    ⟨hsection, _⟩ | ⟨kept, evicted, hsplit, _, hsection⟩
  · rw [hsection]
  · rw [hsection, hsplit]
    exact List.sublist_append_left _ _

/-- After a step the list is sorted exactly if the step pushed in order. -/
theorem step_ordered_iff {op : T × Label α} (hbounded : s.Bounded o) (h : s.Ordered)
    (hstep : step o s op = .ok s') : s'.Ordered ↔ PushesInOrder o s op := by
  obtain ⟨shared, own, hown, rfl⟩ := interleave_ok.mp hstep
  by_cases hpush : ∃ item, (s.own op.1).pc = .push item
  · obtain ⟨item, hpc⟩ := hpush
    obtain ⟨hlabel, rfl, _⟩ := Thread.step_push hpc hown
    have hpushing : pushing s op = [item] := by
      unfold pushing
      rw [hpc, hlabel]
    constructor
    · intro hsorted other hother hroom
      rw [hpushing, List.mem_singleton] at hother
      subst hother
      have htop := List.Pairwise.sublist (push_front hbounded hroom other) hsorted
      intro front hhead
      have hmem : front ∈ s.shared.idle.take 1 := by
        rw [List.take_one]
        exact Option.mem_toList.mpr hhead
      exact (List.pairwise_cons.mp htop).1 front hmem
    · intro horder
      by_cases hroom : o.maxIdle = 1
      · have hone : 0 < o.maxIdle := by omega
        unfold Ordered
        dsimp only
        rw [ConnectionPool.pushSection_take hone (hbounded hone), hroom]
        exact List.pairwise_singleton _ _
      · have hmem : item ∈ pushing s op := by
          rw [hpushing]
          exact List.mem_singleton_self item
        have hall := (pairwise_cons_iff_head h item).mpr (horder item hmem hroom)
        exact hall.sublist (push_sublist o s.shared item)
  · have hnone : pushing s op = [] := by
      unfold pushing
      split
      · rename_i item hpc _
        exact absurd ⟨item, hpc⟩ hpush
      · rfl
    have hsub := Thread.step_idle (not_exists.mp hpush) hown
    constructor
    · intro _ item hitem
      rw [hnone] at hitem
      cases hitem
    · intro _
      exact h.sublist hsub

/-- In every run the list is always sorted by time of return, and every sweep
complete, if and only if every push is in order. -/
theorem ordered_iff_pushes_in_order (hreal : ∀ op ∈ ops, op.2.Real) :
    Throughout (step o) (fun s => s.Ordered ∧ s.SweepsAll o) (start : PoolThreads T α) ops ↔
      Along (step o) (PushesInOrder o) start ops := by
  refine throughout_iff_along (A := fun op : T × Label α => op.2.Real)
    (I := fun s => s.Bounded o ∧ s.Stamped) ?_ ?_ ?_ hreal ?_ ?_
  · rintro s op s' hop ⟨hbounded, hstamped⟩ hstep
    exact ⟨step_bounded hbounded hstep, step_stamped hop hstamped hstep⟩
  · rintro s op s' hop ⟨hbounded, hstamped⟩ ⟨hordered, _⟩ hstep
    rw [← step_ordered_iff hbounded hordered hstep]
    have hstamped' := step_stamped hop hstamped hstep
    exact ⟨fun h => h.1, fun h => ⟨h, h.sweepsAll hstamped'⟩⟩
  · intro s op e hstep item hitem
    unfold pushing at hitem
    split at hitem
    · rename_i item' hpc hlabel
      obtain ⟨r, hr⟩ := Thread.step_push_ok (o := o) s.shared hpc
      simp [step, interleave, hlabel, hr, Except.map] at hstep
    · cases hitem
  · have hempty : (start : PoolThreads T α).Stamped := by
      refine ⟨by simp [start], ?_⟩
      intro t item hpc
      cases hpc
    exact ⟨run_bounded (rfl : run (step o) start [] = .ok start), hempty⟩
  · have hempty : (start : PoolThreads T α).Ordered := List.Pairwise.nil
    exact ⟨hempty, fun _ _ _ _ item hitem => by cases hitem⟩

/-- Two borrowers stamp their connections in turn and push them in that order;
a third `Get` finds the first of them timed out and hands out the second. -/
def pushedInOrder : List (Bool × Label Unit) :=
  [(true, .callGet), (true, .next), (true, .read 0), (true, .read 0), (true, .next),
    (true, .malloc true), (true, .next), (true, .init 0 0 true ()),
    (false, .callGet), (false, .next), (false, .read 0), (false, .read 0), (false, .next),
    (false, .malloc true), (false, .next), (false, .init 0 0 true ()),
    (true, .callPut 0 true), (false, .callPut 1 true), (true, .read 5), (false, .read 6),
    (true, .next), (false, .next), (true, .callGet), (true, .next), (true, .read 106),
    (true, .next), (true, .next), (true, .read 106), (true, .read 106)]

theorem ordered_of_pushes_in_turn :
    (∃ s : PoolThreads Bool Unit,
      run (step { idleTimeoutMs := 100 }) start (pushedInOrder.take 22) = .ok s ∧
      s.shared.idle.map (·.activeTime) = [6, 5]) ∧
    (∃ s : PoolThreads Bool Unit,
      run (step { idleTimeoutMs := 100 }) start pushedInOrder = .ok s ∧
      s.shared.destroyed.map (·.activeTime) = [5] ∧
      (s.own true).held.map (·.activeTime) = [6]) ∧
    Throughout (step { idleTimeoutMs := 100 })
      (fun s : PoolThreads Bool Unit => s.Ordered ∧ s.SweepsAll { idleTimeoutMs := 100 })
      start pushedInOrder := by
  refine ⟨⟨_, rfl, rfl⟩, ⟨_, rfl, rfl, rfl⟩, ?_⟩
  have hvalues : ∀ op ∈ pushedInOrder, ∀ now ∈ op.2.readings, now.toNat < 2 ^ 63 := by
    simp [pushedInOrder, Label.readings]
  apply (ordered_iff_pushes_in_order fun op hop now hnow =>
    clockValue_of_lt (hvalues op hop now hnow)).mpr
  decide +kernel

/-- Two borrowers stamp their connections in turn and push them the other way
round. -/
def pushedOutOfOrder : List (Bool × Label Unit) :=
  [(true, .callGet), (true, .next), (true, .read 0), (true, .read 0), (true, .next),
    (true, .malloc true), (true, .next), (true, .init 0 0 true ()),
    (false, .callGet), (false, .next), (false, .read 0), (false, .read 0), (false, .next),
    (false, .malloc true), (false, .next), (false, .init 0 0 true ()),
    (true, .callPut 0 true), (false, .callPut 1 true), (true, .read 5), (false, .read 6),
    (false, .next), (true, .next)]

/-- The clock goes forward, and yet the front of the list was returned before
its back; at 106 the front has timed out and the sweep does not see it. -/
theorem sweep_misses_timed_out :
    ∃ s : PoolThreads Bool Unit,
      run (step { idleTimeoutMs := 100 }) start pushedOutOfOrder = .ok s ∧
      (pushedOutOfOrder.flatMap (·.2.readings)).Pairwise (· ≤ ·) ∧
      s.shared.idle.map (·.activeTime) = [5, 6] ∧ ¬s.Ordered ∧
      ¬s.SweepsAll { idleTimeoutMs := 100 } := by
  refine ⟨_, rfl, by decide, rfl, by decide, ?_⟩
  intro hsweeps
  have hfresh :=
    hsweeps 106 (clockValue_of_lt (by decide)) (by decide) (fun item p h => by cases h) _ (.head _)
  revert hfresh
  decide

end PoolThreads

end CloRedis
