import CloRedis.Pool.ReferenceCache
import CloRedis.Pool.Times
import CloRedis.Pool.World

/-!
The pool refines the reference cache when the clock never goes back. A
connection is identified by its serial number. The sweep of `Get` stops at the
first node that has not timed out, so it is complete only because the idle
list is sorted by the time of return; that, and that no timestamp lies in the
future, is the invariant of the runs.
-/

namespace CloRedis

open Library ReferenceCache

variable {α : Type*}

def ListItem.entry (item : ListItem α) : ReferenceCache.Entry Nat Int :=
  ⟨item.serial, item.activeTime.toInt, item.createTime.toInt⟩

def ConnectionPoolOption.limits (o : ConnectionPoolOption) : Limits Int :=
  ⟨o.maxIdle, o.maxActive, o.idleTimeoutMs.toInt, o.maxConnLifeTime.toInt⟩

def ListItem.loan (item : ListItem α) : Nat × Int := (item.serial, item.createTime.toInt)

def ConnectionPool.cache (p : ConnectionPool α) (lent : List (ListItem α)) : Cache Nat Int :=
  ⟨p.idle.map (·.entry), lent.map (·.loan), p.activeCnt, p.destroyed.map (·.serial)⟩

namespace TimedWorld

/-- The call as the reference cache sees it. -/
def event (o : ConnectionPoolOption) (clock : Clock) (w : TimedWorld α) : Call α → Event Nat
  | .get env => .got ((w.pool.get o (clock.after w.now) env).item.map (·.serial))
  | .put block isOk =>
      match takeFirst (isBlock block) w.lent with
      | some (item, _) => .gave item.serial isOk
      | none => .used
  | .use _ _ => .used

def timedCache (w : TimedWorld α) : Nat × Cache Nat Int := (w.now, w.pool.cache w.lent)

structure Timely (clock : Clock) (w : TimedWorld α) : Prop where
  sorted : w.pool.idle.Pairwise fun a b => b.activeTime.toInt ≤ a.activeTime.toInt
  returned : ∀ item ∈ w.pool.idle,
    0 ≤ item.activeTime.toInt ∧ item.activeTime.toInt ≤ clock.ms w.now
  created : ∀ item ∈ w.pool.idle ++ w.lent,
    0 ≤ item.createTime.toInt ∧ item.createTime.toInt ≤ clock.ms w.now

namespace Timely

variable {o : ConnectionPoolOption} {clock : Clock} {w w' : TimedWorld α}

theorem new (clock : Clock) : Timely clock ({} : TimedWorld α) :=
  ⟨List.Pairwise.nil, by simp, by simp⟩

/-- Nodes leave the list, and what is lent was lent or idle before or has been
created since: the invariant stays. -/
theorem shrink (hclock : clock.Steady) (h : Timely clock w)
    (hidle : List.Sublist w'.pool.idle w.pool.idle)
    (hlent : ∀ item ∈ w'.lent, item ∈ w.pool.idle ++ w.lent ∨
      (0 ≤ item.createTime.toInt ∧ item.createTime.toInt ≤ clock.ms w'.now))
    (hnow : w.now ≤ w'.now) : Timely clock w' where
  sorted := h.sorted.sublist hidle
  returned := by
    intro item hitem
    have hold := h.returned item (hidle.subset hitem)
    exact ⟨hold.1, hold.2.trans (hclock _ _ hnow)⟩
  created := by
    intro item hitem
    have hold : item ∈ w.pool.idle ++ w.lent ∨
        (0 ≤ item.createTime.toInt ∧ item.createTime.toInt ≤ clock.ms w'.now) := by
      rcases List.mem_append.mp hitem with hmem | hmem
      · exact Or.inl (List.mem_append_left _ (hidle.subset hmem))
      · exact hlent item hmem
    rcases hold with hmem | hnew
    · have hcreated := h.created item hmem
      exact ⟨hcreated.1, hcreated.2.trans (hclock _ _ hnow)⟩
    · exact hnew

/-- A returned connection is stamped with the current time, so it may stand in
front of every connection returned before. -/
theorem stamped (hclock : clock.Steady) (h : Timely clock w) {item : ListItem α}
    {rest : List (ListItem α)} (hitem : item ∈ w.pool.idle ++ w.lent)
    (hrest : ∀ other ∈ rest, other ∈ w.pool.idle ++ w.lent) :
    Timely clock
      { pool := { w.pool with idle := item.stamp (clock.read w.now) :: w.pool.idle }
        lent := rest, now := w.now + 1 } := by
  have hnow := hclock w.now (w.now + 1) (Nat.le_succ _)
  have htime : (item.stamp (clock.read w.now)).activeTime.toInt = clock.ms w.now :=
    Clock.toInt_stamp clock w.now
  constructor
  · rw [List.pairwise_cons]
    constructor
    · intro other hother
      rw [htime]
      exact (h.returned other hother).2
    · exact h.sorted
  · intro other hother
    rcases List.mem_cons.mp hother with rfl | hmem
    · rw [htime]
      exact ⟨Clock.ms_nonneg _ _, hnow⟩
    · have hreturned := h.returned other hmem
      exact ⟨hreturned.1, hreturned.2.trans hnow⟩
  · intro other hother
    have hcreated : 0 ≤ other.createTime.toInt ∧ other.createTime.toInt ≤ clock.ms w.now := by
      rcases List.mem_append.mp hother with hidle | hmem
      · rcases List.mem_cons.mp hidle with rfl | hmem
        · exact h.created item hitem
        · exact h.created other (List.mem_append_left _ hmem)
      · exact h.created other (hrest other hmem)
    exact ⟨hcreated.1, hcreated.2.trans hnow⟩

/-- What a borrower does to its object leaves the times alone. -/
theorem updated (h : Timely clock w) {lent : List (ListItem α)}
    (hlent : ∀ item ∈ lent, ∃ old ∈ w.lent, item.createTime = old.createTime) :
    Timely clock { w with lent := lent } := by
  refine ⟨h.sorted, h.returned, ?_⟩
  intro item hitem
  rcases List.mem_append.mp hitem with hidle | hmem
  · exact h.created item (List.mem_append_left _ hidle)
  · obtain ⟨old, hold, htime⟩ := hlent item hmem
    rw [htime]
    exact h.created old (List.mem_append_right _ hold)

end Timely

section Get

variable {o : ConnectionPoolOption} {clock : Clock} {w : TimedWorld α}
  {aged kept gone : List (ListItem α)} {swept : Nat}

/-- The division of the idle list by the code is one the cache allows. -/
theorem turnover_of_cleared (hclock : clock.Steady) (h : Timely clock w)
    (hcleared : w.pool.Cleared o (clock.after w.now) aged kept gone swept) :
    Turnover o.limits (fun i => clock.ms (w.now + i)) (w.pool.cache w.lent).idle
      (aged.map (·.entry)) (kept.map (·.entry)) (gone.map (·.entry)) swept where
  split := by
    simp [ConnectionPool.cache, hcleared.split]
  readings := by
    have htests : 0 < o.idleTimeoutMs ∧ aged ++ kept ≠ [] ↔
        0 < o.limits.idleTimeout ∧ aged.map (·.entry) ++ kept.map (·.entry) ≠ [] := by
      rw [← List.map_append, ne_eq, ne_eq, List.map_eq_nil_iff, pos_iff_toInt_pos]
      exact Iff.rfl
    rw [hcleared.readings, List.length_map, if_congr htests rfl rfl]
  timed_out_leave := by
    intro e he hexpired
    rw [← List.map_append] at he
    obtain ⟨item, hitem, rfl⟩ := List.mem_map.mp he
    have hlimit : 0 < o.idleTimeoutMs := pos_iff_toInt_pos.mpr hexpired.1
    have hprefix : List.Sublist (aged ++ kept) w.pool.idle := by
      rw [hcleared.split]
      exact List.sublist_append_left _ _
    -- the last node the sweep left is the oldest of those it left
    obtain ⟨last, hlast⟩ :=
      Option.isSome_iff_exists.mp (List.getLast?_isSome.mpr (List.ne_nil_of_mem hitem))
    have hlastIdle := hprefix.subset (List.mem_of_getLast? hlast)
    have hfresh := hcleared.unexpired hlimit last hlast
    rw [Bool.eq_false_iff, ne_eq,
      ListItem.timedOut_iff (h.returned last hlastIdle).1 hlimit, not_lt] at hfresh
    have hbound : clock.ms (w.now + gone.length) - o.idleTimeoutMs.toInt ≤
        last.activeTime.toInt := by
      have : clock.ms (w.now + gone.length) ≤
          last.activeTime.toInt + o.idleTimeoutMs.toInt := hfresh
      omega
    have hall := not_lt_of_getLast? (h.sorted.sublist hprefix) hlast hbound item hitem
    have hsteady := hclock (w.now + 0) (w.now + gone.length) (by omega)
    have hless := hexpired.2
    simp only [ListItem.entry, ConnectionPoolOption.limits] at hless
    omega
  expired_tested := by
    intro i hi
    rw [List.length_map] at hi
    obtain ⟨hlimit, htimedOut⟩ := hcleared.expired i hi
    have hmem : gone[i] ∈ w.pool.idle := by
      rw [hcleared.split]
      simp
    rw [ListItem.timedOut_iff (h.returned _ hmem).1 hlimit] at htimedOut
    rw [List.getElem_map]
    exact ⟨pos_iff_toInt_pos.mp hlimit, htimedOut⟩
  aged_tested := by
    intro i hi
    rw [List.length_map] at hi
    have htest := hcleared.overage i hi
    have hmem : aged[i] ∈ w.pool.idle ++ w.lent := by
      rw [hcleared.split]
      simp
    have hcreated := h.created _ hmem
    have hread : aged[i].createTime.toInt ≤ (clock.after w.now).ms (swept + i) :=
      hcreated.2.trans (hclock _ _ (by omega))
    rw [Bool.eq_false_iff, ne_eq, ListItem.withinLifeTime_iff hcreated.1 hread, not_not] at htest
    rw [List.getElem_map]
    exact htest

theorem cleared_cache (p : ConnectionPool α) (lent aged behind gone : List (ListItem α)) :
    (p.cleared aged behind gone).cache lent =
      (p.cache lent).settle (behind.map (·.entry)) (aged.map (·.entry)) (gone.map (·.entry)) := by
  simp [ConnectionPool.cleared, ConnectionPool.cache, Cache.settle, List.map_reverse,
    ListItem.entry, Function.comp_def]

theorem admits_hasRoom {p : ConnectionPool α} (lent : List (ListItem α))
    (h : p.admits o = true) : o.limits.HasRoom (p.cache lent) :=
  (ConnectionPool.admits_iff o p).mp h

theorem lifeReads_limits (o : ConnectionPoolOption) :
    o.limits.lifeReads = ConnectionPool.lifeReads o := by
  unfold Limits.lifeReads ConnectionPool.lifeReads
  have hpos : 0 < o.limits.lifeTime ↔ ¬o.maxConnLifeTime ≤ 0 := by
    rw [Int64.le_iff_toInt_le, not_le]
    exact Iff.rfl
  by_cases hlife : o.maxConnLifeTime ≤ 0 <;> simp [hpos, hlife]

/-- The serial number of the connection built next is that of none there was. -/
theorem constructed_fresh (hsound : w.Sound) :
    w.pool.constructed ∉ (w.pool.cache w.lent).conns := by
  intro hmem
  have hconns : (w.pool.cache w.lent).conns =
      w.pool.idle.map (·.serial) ++ w.lent.map (·.serial) ++ w.pool.destroyed.map (·.serial) := by
    simp [Cache.conns, ConnectionPool.cache, ListItem.entry, ListItem.loan, Function.comp_def]
  rw [hconns] at hmem
  exact lt_irrefl _ (List.mem_range.mp (hsound.serials.subset hmem))

theorem get_step (hclock : clock.Steady) (h : Timely clock w) (hsound : w.Sound)
    (env : CallEnv α) :
    Step o.limits (fun i => clock.ms (w.now + i)) (w.pool.cache w.lent)
      (.got ((w.pool.get o (clock.after w.now) env).item.map (·.serial)))
      (w.pool.get o (clock.after w.now) env).ticks
      ((w.pool.get o (clock.after w.now) env).pool.cache
        ((w.pool.get o (clock.after w.now) env).item.toList ++ w.lent)) := by
  have houtcome := ConnectionPool.get_outcome o (clock.after w.now) env w.pool
  generalize w.pool.get o (clock.after w.now) env = r at houtcome ⊢
  cases houtcome with
  | refused hrefused =>
      have hfull : ¬(0 < o.maxActive → w.pool.activeCnt < o.maxActive) := by
        rw [← ConnectionPool.admits_iff, hrefused]
        exact Bool.false_ne_true
      have hcap : 0 < o.maxActive ∧ o.maxActive ≤ w.pool.activeCnt := by omega
      exact .refused hcap.1 hcap.2
  | reused aged behind gone item swept ticks hadmits hcleared husable hticks =>
      have hturn := turnover_of_cleared hclock h hcleared
      have hmem : item ∈ w.pool.idle ++ w.lent := by
        rw [hcleared.split]
        simp
      have hcreated := h.created item hmem
      have hread : item.createTime.toInt ≤ (clock.after w.now).ms (swept + aged.length) :=
        hcreated.2.trans (hclock _ _ (by omega))
      rw [ListItem.withinLifeTime_iff hcreated.1 hread] at husable
      have hyoung : ¬o.limits.OverAge
          (clock.ms (w.now + (swept + (aged.map (·.entry)).length))) item.entry := by
        rw [List.length_map]
        exact husable
      have hstep := Step.reused _ _ _ item.entry swept (admits_hasRoom w.lent hadmits) hturn hyoung
      have hcache := cleared_cache w.pool w.lent aged behind gone
      rw [← hcache, List.length_map, lifeReads_limits, ← hticks] at hstep
      exact hstep
  | created aged gone swept ticks r hadmits hcleared hticks hcreated =>
      have hturn := turnover_of_cleared hclock h hcleared
      have hroom := admits_hasRoom w.lent hadmits
      have hcache := cleared_cache w.pool w.lent aged [] gone
      rw [List.map_nil] at hcache
      have hreads : ticks = swept + (aged.map (·.entry)).length * o.limits.lifeReads := by
        rw [List.length_map, lifeReads_limits, hticks]
      have hfresh := constructed_fresh hsound
      rw [← ConnectionPool.cleared_constructed w.pool aged [] gone] at hfresh
      cases hcreated with
      | outOfMemory _ _ =>
          change Step _ _ _ _ ticks ((w.pool.cleared aged [] gone).cache w.lent)
          rw [hcache, hreads]
          exact .outOfMemory _ _ swept hroom hturn
      | ready block p object hblock _ =>
          have hstep := Step.created (aged.map (·.entry)) (gone.map (·.entry)) swept ticks
            (w.pool.cleared aged [] gone).constructed hroom hturn hreads hfresh
          rw [← hcache, ← Clock.toInt_stamp] at hstep
          cases hblock <;> exact hstep
      | refused block p object hblock _ =>
          have hstep := Step.rejected (aged.map (·.entry)) (gone.map (·.entry)) swept
            (w.pool.cleared aged [] gone).constructed hroom hturn hfresh
          rw [← hcache, ← hreads] at hstep
          cases hblock <;>
            simpa [ConnectionPool.cache, ConnectionPool.gc, ConnectionPool.recycle,
              ConnectionPool.countDown, ConnectionPool.newItem] using hstep

end Get

/-! ### One call -/

section Step

variable {o : ConnectionPoolOption} {clock : Clock} {w w' : TimedWorld α}

theorem Timely.step (hclock : clock.Steady) (h : Timely clock w) {call : Call α}
    (hstep : w.step o clock call = .ok w') : Timely clock w' := by
  cases call with
  | get env =>
      cases hstep
      have heffect := ConnectionPool.get_effect o (clock.after w.now) env w.pool
      refine h.shrink hclock heffect.idle ?_ (Nat.le_add_right _ _)
      intro item hitem
      rcases List.mem_append.mp hitem with hgot | hlent
      · rcases heffect.item item (by simpa using hgot) with hmem | hnew
        · exact Or.inl (List.mem_append_left _ hmem)
        · obtain ⟨i, hi, hcreate⟩ := hnew.created
          right
          rw [hcreate, Clock.read_after, Clock.toInt_stamp]
          exact ⟨Clock.ms_nonneg _ _, hclock _ _ (Nat.add_le_add_left hi _)⟩
      · exact Or.inl (List.mem_append_right _ hlent)
  | put block isOk =>
      obtain ⟨item, rest, htake, rfl⟩ := step_put hstep
      have hperm := takeFirst_perm htake
      have hrest : ∀ other ∈ rest, other ∈ w.pool.idle ++ w.lent := by
        intro other hother
        exact List.mem_append_right _ (hperm.symm.subset (List.mem_cons_of_mem _ hother))
      have hitem : item ∈ w.pool.idle ++ w.lent :=
        List.mem_append_right _ (hperm.symm.subset (List.mem_cons_self ..))
      cases isOk with
      | false =>
          refine h.shrink hclock (List.Sublist.refl _) ?_ (Nat.le_refl _)
          intro other hother
          exact Or.inl (hrest other hother)
      | true =>
          have hstamped := h.stamped hclock hitem hrest
          rcases ConnectionPool.pushSection_cases o w.pool (item.stamp (clock.read w.now)) with
            ⟨hsection, _⟩ | ⟨kept, evicted, hsplit, _, hsection⟩
          · simp only [ConnectionPool.put, hsection]
            exact hstamped
          · simp only [ConnectionPool.put, hsection]
            refine hstamped.shrink hclock ?_ ?_ (Nat.le_refl _)
            · dsimp only
              rw [hsplit]
              exact List.sublist_append_left _ _
            · intro other hother
              exact Or.inl (List.mem_append_right _ hother)
  | use block effect =>
      obtain ⟨item, rest, htake, rfl⟩ := step_use hstep
      have hperm := takeFirst_perm htake
      apply h.updated
      intro other hother
      rcases List.mem_cons.mp hother with rfl | hmem
      · exact ⟨item, hperm.symm.subset (List.mem_cons_self ..), rfl⟩
      · exact ⟨other, hperm.symm.subset (List.mem_cons_of_mem _ hmem), rfl⟩

theorem timedStep_of_step (hclock : clock.Steady) (h : Timely clock w) (hsound : w.Sound)
    {call : Call α} (hstep : w.step o clock call = .ok w') :
    TimedStep o.limits clock.ms w.timedCache (w.event o clock call) w'.timedCache := by
  cases call with
  | get env =>
      cases hstep
      exact ⟨_, rfl, get_step hclock h hsound env⟩
  | put block isOk =>
      obtain ⟨item, rest, htake, rfl⟩ := step_put hstep
      have hloan : (w.lent.map (·.loan)).Perm (item.loan :: rest.map (·.loan)) :=
        (takeFirst_perm htake).map _
      simp only [event, htake]
      cases isOk with
      | false => exact ⟨0, rfl, .discarded item.serial item.createTime.toInt _ hloan⟩
      | true =>
          have hstamp : (item.stamp (clock.read w.now)).entry.returned = clock.ms (w.now + 0) :=
            Clock.toInt_stamp clock w.now
          refine ⟨1, rfl, ?_⟩
          rcases ConnectionPool.pushSection_cases o w.pool (item.stamp (clock.read w.now)) with
            ⟨hsection, hfits⟩ | ⟨kept, evicted, hsplit, hover, hsection⟩
          · simp only [timedCache, ConnectionPool.put, hsection]
            refine .kept (item.stamp (clock.read w.now)).entry _ hloan hstamp ?_
            simpa [ConnectionPool.cache, ConnectionPoolOption.limits] using hfits
          · simp only [timedCache, ConnectionPool.put, hsection]
            refine .evicted (item.stamp (clock.read w.now)).entry evicted.entry
              (kept.map (·.entry)) (rest.map (·.loan)) ?_ ?_ ?_ ?_
            · exact hloan
            · exact hstamp
            · simpa [ConnectionPool.cache, ConnectionPoolOption.limits] using hover
            · have hentries := congrArg (List.map (·.entry)) hsplit
              simpa [ConnectionPool.cache] using hentries
  | use block effect =>
      obtain ⟨item, rest, htake, rfl⟩ := step_use hstep
      exact ⟨0, rfl, .used _ ((takeFirst_perm htake).map _)⟩

end Step

/-- With a steady clock every run of the pool is a run of the reference cache:
what is destroyed, kept and handed out is what the cache allows. Both loops of
`Get` terminate in every state, and the cap holds after every run. -/
theorem pool_refines_cache {o : ConnectionPoolOption} {clock : Clock} {calls : List (Call α)}
    {w : TimedWorld α} (hclock : clock.Steady) (hrun : run (step o clock) {} calls = .ok w) :
    Steps (TimedStep o.limits clock.ms) (0, {}) (trace (step o clock) (event o clock) {} calls)
      w.timedCache ∧
    (0 < o.maxActive → w.pool.activeCnt ≤ o.maxActive) ∧
    (∀ env, w.pool.admits o = false →
      (w.pool.get o (clock.after w.now) env).pool.idle = w.pool.idle ∧
      (w.pool.get o (clock.after w.now) env).pool.activeCnt = w.pool.activeCnt) ∧
    ∀ (readings : Clock) (s : Progress α),
      Loop (ConnectionPool.sweepBody o readings) s (ConnectionPool.sweep o readings s) ∧
      Loop (ConnectionPool.scanBody o readings) s (ConnectionPool.scan o readings s) := by
  have hsteps : Steps (TimedStep o.limits clock.ms) (timedCache {})
      (trace (step o clock) (event o clock) {} calls) w.timedCache :=
    run_simulates (I := fun w : TimedWorld α => Timely clock w ∧ w.Sound)
      (fun _ _ _ hs hstep => ⟨hs.1.step hclock hstep, step_sound hs.2 hstep⟩)
      (fun _ _ _ hs hstep => timedStep_of_step hclock hs.1 hs.2 hstep)
      ⟨Timely.new clock, ConnectionPool.Sound.new⟩ hrun
  refine ⟨hsteps, ?_, ?_, ?_⟩
  · intro hcap
    have hstart : ((timedCache ({} : TimedWorld α)).2).count ≤ o.limits.maxActive := hcap.le
    have hend : w.timedCache.2.count ≤ o.limits.maxActive :=
      steps_invariant (I := fun a : Nat × Cache Nat Int => a.2.count ≤ o.limits.maxActive)
        (fun _ _ _ hcount ⟨_, _, hstep⟩ => hstep.count_le hcap hcount) hstart hsteps
    exact hend
  · intro env hrefused
    rw [ConnectionPool.get_refused (clock.after w.now) env hrefused]
    exact ⟨rfl, rfl⟩
  · intro readings s
    exact ⟨ConnectionPool.sweep_loop o readings s, ConnectionPool.scan_loop o readings s⟩

/-- The time at each reading, which moves on by some seconds at three of them. -/
def movingMs (i : Nat) : Nat :=
  if i < 4 then 5000 else if i < 10 then 8000 else if i < 12 then 10000 else 13000

theorem movingMs_lt (i : Nat) : movingMs i < 2 ^ 53 := by
  unfold movingMs
  split_ifs <;> decide

def movingClock : Clock := fun i => stillClock (movingMs i) (movingMs_lt i) i

theorem movingClock_steady : movingClock.Steady := by
  intro i j hij
  have hms (k : Nat) : movingClock.ms k =
      if k < 4 then 5000 else if k < 10 then 8000 else if k < 12 then 10000 else 13000 := by
    simp only [Clock.ms, Clock.read, movingClock, stillClock, movingMs, getCurrentTimeMs]
    split_ifs <;> rfl
  rw [hms, hms]
  split_ifs <;> omega

def agingOption : ConnectionPoolOption :=
  { maxIdle := 3, maxActive := 4, idleTimeoutMs := 4000, maxConnLifeTime := 6000 }

/-- Four connections are made and a fifth refused. They are returned one after
the other, the last of them to a full list. -/
def agingCalls : List (Call Unit) :=
  [.get ⟨true, (), none⟩, .get ⟨true, (), none⟩, .get ⟨true, (), none⟩, .get ⟨true, (), none⟩,
    .get ⟨true, (), none⟩, .put 0 true, .put 3 true, .put 2 true, .put 1 true,
    .get ⟨true, (), none⟩]

/-- The last `Get` finds three connections: the one at the back has timed out,
the one at the front is too old, and the one between them is handed out. -/
theorem pool_refines_cache_of_aging :
    ∃ w : TimedWorld Unit,
      run (step agingOption movingClock) {} agingCalls = .ok w ∧
      w.timedCache = (16, ⟨[], [(2, 8000)], 1, [1, 3, 0]⟩) ∧
      Steps (TimedStep agingOption.limits movingClock.ms) (0, {})
        [.got (some 0), .got (some 1), .got (some 2), .got (some 3), .got none, .gave 0 true,
          .gave 3 true, .gave 2 true, .gave 1 true, .got (some 2)]
        w.timedCache ∧
      w.pool.activeCnt ≤ 4 := by
  obtain ⟨w, hrun, htrace, hcache⟩ : ∃ w : TimedWorld Unit,
      run (step agingOption movingClock) {} agingCalls = .ok w ∧
      trace (step agingOption movingClock) (event agingOption movingClock) {} agingCalls =
        [.got (some 0), .got (some 1), .got (some 2), .got (some 3), .got none, .gave 0 true,
          .gave 3 true, .gave 2 true, .gave 1 true, .got (some 2)] ∧
      w.timedCache = (16, ⟨[], [(2, 8000)], 1, [1, 3, 0]⟩) :=
    ⟨_, rfl, rfl, rfl⟩
  have hrefines := pool_refines_cache movingClock_steady hrun
  rw [htrace] at hrefines
  exact ⟨w, hrun, hcache, hrefines.1, hrefines.2.1 (by decide)⟩

end TimedWorld

end CloRedis
