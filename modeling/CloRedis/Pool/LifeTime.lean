import CloRedis.Pool.Times
import CloRedis.Pool.World

/-!
The lifetime of idle connections when the clock may go back. The age in the
second loop of `Get` is an unsigned difference. A reading behind the creation
of a connection wraps around to an age no limit exceeds, and the connection is
destroyed however young it is. This is the only way in which a connection is
destroyed before its time.
-/

namespace CloRedis

open Library

variable {α : Type*}

/-- A connection created after the reading that tests it is found too old. -/
theorem ListItem.overage_of_future {o : ConnectionPoolOption} {clock : Clock} {i : Nat}
    {item : ListItem α} (hlife : 0 < o.maxConnLifeTime.toInt)
    (hfuture : clock.ms i < item.createTime.toInt) :
    item.withinLifeTime o (clock.read i) = false := by
  have hnonneg := clock.ms_nonneg i
  have hcreate := toNat_toUInt64 (hnonneg.trans hfuture.le)
  have hcreateLt := item.createTime.toInt_lt
  have hlimit := toNat_toUInt64 hlife.le
  have hlimitLt := o.maxConnLifeTime.toInt_lt
  unfold Clock.ms at hfuture
  have hwrap : (clock.read i - item.createTime.toUInt64).toNat =
      2 ^ 64 - item.createTime.toUInt64.toNat + (clock.read i).toNat := by
    rw [UInt64.toNat_sub, Nat.mod_eq_of_lt]
    omega
  have hno : ¬o.maxConnLifeTime ≤ 0 := by
    rw [Int64.le_iff_toInt_le]
    exact not_le.mpr hlife
  unfold ListItem.withinLifeTime
  rw [Bool.or_eq_false_iff, decide_eq_false_iff_not, decide_eq_false_iff_not,
    UInt64.lt_iff_toNat_lt, hwrap]
  refine ⟨hno, ?_⟩
  omega

namespace ConnectionPool

variable {o : ConnectionPoolOption} {clock : Clock} {env : CallEnv α} {p : ConnectionPool α}

/-- Without a limit on the idle time, `Get` begins with the second loop. What
it destroys besides the nodes of that loop is the one it has built itself. -/
theorem get_unswept (clock : Clock) (env : CallEnv α) (hnone : ¬0 < o.idleTimeoutMs)
    (hadmits : p.admits o = true) :
    ∃ aged found behind r own, Scanned.Result o clock ⟨p, 0⟩ r aged found behind ∧
      (p.get o clock env).pool.destroyed = own ++ (aged.reverse ++ p.destroyed) ∧
      ∀ item ∈ own, item.serial = p.constructed := by
  have hexpire : expire o clock p = ⟨p, 0⟩ := by
    unfold expire
    rw [if_neg hnone]
  obtain ⟨aged, behind, hscan⟩ := scan_result o clock ⟨p, 0⟩
  have hgone : (scan o clock ⟨p, 0⟩).2.pool.destroyed = aged.reverse ++ p.destroyed := by
    rw [hscan.pool, gcAll_destroyed]
  have hbuilt : (scan o clock ⟨p, 0⟩).2.pool.constructed = p.constructed := by
    rw [hscan.pool, gcAll_constructed]
  rcases get_admitted clock env hadmits with ⟨item, s, hfound, hget⟩ | ⟨s, hfound, hget⟩
  · rw [hexpire] at hfound
    rw [hfound] at hgone
    refine ⟨aged, _, behind, _, [], hscan, ?_, by simp⟩
    rw [hget]
    exact hgone
  · rw [hexpire] at hfound
    rw [hfound] at hgone hbuilt
    dsimp only at hgone hbuilt
    have hcreated := getNewInstance_created clock env s
    rw [hget]
    generalize getNewInstance clock env s = r at hcreated ⊢
    cases hcreated with
    | outOfMemory _ _ => exact ⟨aged, _, behind, _, [], hscan, hgone, by simp⟩
    | ready block p' object hblock _ =>
        refine ⟨aged, _, behind, _, [], hscan, ?_, by simp⟩
        cases hblock <;> exact hgone
    | refused block p' object hblock _ =>
        refine ⟨aged, _, behind, _, [p'.newItem clock s.ticks block object], hscan, ?_, ?_⟩
        · cases hblock <;> exact congrArg (List.cons _) hgone
        · intro item hitem
          rw [List.mem_singleton.mp hitem]
          cases hblock <;> exact hbuilt

/-- The loop takes a node off the front exactly when it finds it and all nodes
before it too old. -/
theorem Scanned.Result.aged_iff {s r : Progress α} {aged behind : List (ListItem α)}
    {found : Option (ListItem α)} (h : Scanned.Result o clock s r aged found behind) {i : Nat}
    (hi : i < s.pool.idle.length) :
    i < aged.length ↔ ∀ j ≤ i, ∀ item, s.pool.idle[j]? = some item →
      item.withinLifeTime o (clock.read (s.ticks + j)) = false := by
  have hsplit : s.pool.idle = aged ++ (found.toList ++ behind) := by
    rw [← List.append_assoc]
    exact h.split
  constructor
  · intro haged j hj item hitem
    have hjaged : j < aged.length := by omega
    rw [hsplit, List.getElem?_append_left hjaged, List.getElem?_eq_getElem hjaged] at hitem
    cases hitem
    have hold := h.overage j hjaged
    rw [lifeReads_of_overage hold, Nat.mul_one] at hold
    exact hold
  · intro hall
    by_contra hlate
    -- the loop stopped at or before this node, on one it could use
    cases hfound : found with
    | none =>
        rw [hsplit, hfound, h.none_behind hfound] at hi
        simp only [Option.toList_none, List.append_nil] at hi
        exact hlate hi
    | some last =>
        have hlast : s.pool.idle[aged.length]? = some last := by
          rw [hsplit, hfound]
          simp
        have hold := hall aged.length (by omega) last hlast
        have husable := h.usable last hfound
        rw [lifeReads_of_overage hold, Nat.mul_one, hold] at husable
        cases husable

namespace Sound

variable {out : List (ListItem α)}

theorem idle_nodup (h : p.Sound out) : p.idle.Nodup := by
  have hall : (p.idle.map (·.serial) ++ out.map (·.serial) ++ p.destroyed.map (·.serial)).Nodup :=
    h.serials.nodup_iff.mpr List.nodup_range
  exact (List.nodup_append.mp (List.nodup_append.mp hall).1).1.of_map

theorem idle_not_destroyed (h : p.Sound out) {item : ListItem α} (hitem : item ∈ p.idle) :
    item ∉ p.destroyed := by
  intro hgone
  have honce := h.destroyed_once (List.mem_map_of_mem hgone)
  exact honce.2.1 (List.mem_map_of_mem hitem)

end Sound

/-- An idle connection is destroyed exactly when its test and those of all
connections in front of it find them too old. -/
theorem get_destroys_iff {out : List (ListItem α)} (hsound : p.Sound out)
    (hnone : ¬0 < o.idleTimeoutMs) {i : Nat} {item : ListItem α} (hitem : p.idle[i]? = some item) :
    item ∈ (p.get o clock env).pool.destroyed ↔
      p.admits o = true ∧ ∀ j ≤ i, ∀ other, p.idle[j]? = some other →
        other.withinLifeTime o (clock.read j) = false := by
  obtain ⟨hi, hat⟩ := List.getElem?_eq_some_iff.mp hitem
  have hidle : item ∈ p.idle := List.mem_of_getElem? hitem
  have hfresh := hsound.idle_not_destroyed hidle
  cases hadmits : p.admits o with
  | false =>
      rw [get_refused clock env hadmits]
      simp only [Bool.false_eq_true, false_and, iff_false]
      exact hfresh
  | true =>
      obtain ⟨aged, found, behind, r, own, hscan, hgone, hown⟩ :=
        get_unswept clock env hnone hadmits
      have hnotOwn : item ∉ own := by
        intro hmem
        have hold := (hsound.serial_unique hidle).1
        rw [hown item hmem] at hold
        exact lt_irrefl _ hold
      have hmem : item ∈ (p.get o clock env).pool.destroyed ↔ item ∈ aged := by
        rw [hgone]
        simp [hnotOwn, hfresh]
      have hposition : item ∈ aged ↔ i < aged.length := by
        have hsplit : p.idle = aged ++ (found.toList ++ behind) := by
          rw [← List.append_assoc]
          exact hscan.split
        have hnodup := hsound.idle_nodup
        constructor
        · intro haged
          obtain ⟨k, hk, hkitem⟩ := List.getElem_of_mem haged
          have hkat : p.idle[k]? = some item := by
            rw [hsplit, List.getElem?_append_left hk, List.getElem?_eq_getElem hk, hkitem]
          have hsame : i = k := (List.getElem?_inj hi hnodup).mp (hitem.trans hkat.symm)
          omega
        · intro haged
          rw [hsplit, List.getElem?_append_left haged] at hitem
          exact List.mem_of_getElem? hitem
      have hloop := hscan.aged_iff hi
      simp only [Nat.zero_add] at hloop
      rw [hmem, hposition, hloop]
      exact (and_iff_right rfl).symm

end ConnectionPool

namespace TimedWorld

variable {o : ConnectionPoolOption} {clock : Clock} {w w' : TimedWorld α}

/-- The creation times are clock readings. -/
def Dated (w : TimedWorld α) : Prop :=
  ∀ item ∈ w.pool.idle ++ w.lent, 0 ≤ item.createTime.toInt

theorem step_dated {call : Call α} (h : w.Dated) (hstep : w.step o clock call = .ok w') :
    w'.Dated := by
  cases call with
  | get env =>
      cases hstep
      have heffect := ConnectionPool.get_effect o (clock.after w.now) env w.pool
      intro item hitem
      rcases List.mem_append.mp hitem with hidle | hout
      · exact h item (List.mem_append_left _ (heffect.idle.subset hidle))
      · rcases List.mem_append.mp hout with hgot | hlent
        · rcases heffect.item item (by simpa using hgot) with hmem | hnew
          · exact h item (List.mem_append_left _ hmem)
          · obtain ⟨i, _, hcreate⟩ := hnew.created
            rw [hcreate, Clock.toInt_stamp]
            exact Clock.ms_nonneg _ _
        · exact h item (List.mem_append_right _ hlent)
  | put block isOk =>
      obtain ⟨item, rest, htake, rfl⟩ := step_put hstep
      have hperm := takeFirst_perm htake
      have hitem := h item (List.mem_append_right _ (hperm.symm.subset (List.mem_cons_self ..)))
      intro other hother
      rcases List.mem_append.mp hother with hidle | hrest
      · rcases (ConnectionPool.put_effect _ _ _ _ _).idle other hidle with hold | ⟨_, rfl⟩
        · exact h other (List.mem_append_left _ hold)
        · exact hitem
      · have hlent := hperm.symm.subset (List.mem_cons_of_mem _ hrest)
        exact h other (List.mem_append_right _ hlent)
  | use block effect =>
      obtain ⟨item, rest, htake, rfl⟩ := step_use hstep
      have hperm := takeFirst_perm htake
      intro other hother
      rcases List.mem_append.mp hother with hidle | hlent
      · exact h other (List.mem_append_left _ hidle)
      · rcases List.mem_cons.mp hlent with rfl | hrest
        · exact h item (List.mem_append_right _ (hperm.symm.subset (List.mem_cons_self ..)))
        · have hmem := hperm.symm.subset (List.mem_cons_of_mem _ hrest)
          exact h other (List.mem_append_right _ hmem)

/-- The age of a connection when reading `i` tests it. -/
def ageAt (clock : Clock) (i : Nat) (item : ListItem α) : Int :=
  clock.ms i - item.createTime.toInt

/-- A `Get` destroys no idle connection that has not reached its life time. It
reads the clock once for each node it tests, from the front of the list on. -/
def SparesYoung (o : ConnectionPoolOption) (clock : Clock) (w : TimedWorld α) : Call α → Prop
  | .get env => ∀ i item, w.pool.idle[i]? = some item →
      item ∈ (w.pool.get o (clock.after w.now) env).pool.destroyed →
      o.maxConnLifeTime.toInt ≤ ageAt clock (w.now + i) item
  | _ => True

/-- No connection that a `Get` comes to test is younger than nothing. It comes
to those that are behind connections past their life time only. -/
def TestsNoFuture (o : ConnectionPoolOption) (clock : Clock) (w : TimedWorld α) : Call α → Prop
  | .get _ => w.pool.admits o = true → ∀ i item, w.pool.idle[i]? = some item →
      (∀ j < i, ∀ other, w.pool.idle[j]? = some other →
        o.maxConnLifeTime.toInt ≤ ageAt clock (w.now + j) other) →
      0 ≤ ageAt clock (w.now + i) item
  | _ => True

theorem overage_iff (hlife : 0 < o.maxConnLifeTime) {item : ListItem α} {i : Nat}
    (hdated : 0 ≤ item.createTime.toInt) (hage : 0 ≤ ageAt clock i item) :
    item.withinLifeTime o (clock.read i) = false ↔
      o.maxConnLifeTime.toInt ≤ ageAt clock i item := by
  have hpos := pos_iff_toInt_pos.mp hlife
  unfold ageAt at hage ⊢
  rw [Bool.eq_false_iff, ne_eq, ListItem.withinLifeTime_iff hdated (by omega), not_not]
  exact and_iff_right hpos

theorem sparesYoung_iff (hnone : o.idleTimeoutMs ≤ 0) (hlife : 0 < o.maxConnLifeTime)
    (hsound : w.Sound) (hdated : w.Dated) (call : Call α) :
    SparesYoung o clock w call ↔ TestsNoFuture o clock w call := by
  cases call with
  | put block isOk => exact Iff.rfl
  | use block effect => exact Iff.rfl
  | get env =>
      have hpos := pos_iff_toInt_pos.mp hlife
      have hidleDated {j : Nat} {other : ListItem α} (hother : w.pool.idle[j]? = some other) :
          0 ≤ other.createTime.toInt :=
        hdated other (List.mem_append_left _ (List.mem_of_getElem? hother))
      have hnosweep : ¬0 < o.idleTimeoutMs := by
        rw [Int64.lt_iff_toInt_lt]
        exact not_lt.mpr (Int64.le_iff_toInt_le.mp hnone)
      constructor
      · intro hspares hadmits i item hitem hbefore
        by_contra hfuture
        have hgone : item ∈ (w.pool.get o (clock.after w.now) env).pool.destroyed := by
          apply (ConnectionPool.get_destroys_iff hsound hnosweep hitem).mpr
          refine ⟨hadmits, fun j hj other hother => ?_⟩
          rw [Clock.read_after]
          rcases Nat.lt_or_eq_of_le hj with hlt | rfl
          · have haged := hbefore j hlt other hother
            exact (overage_iff hlife (hidleDated hother) (by omega)).mpr haged
          · cases hitem.symm.trans hother
            apply ListItem.overage_of_future hpos
            unfold ageAt at hfuture
            omega
        have haged := hspares i item hitem hgone
        omega
      · intro htests i item hitem hgone
        obtain ⟨hadmits, hall⟩ :=
          (ConnectionPool.get_destroys_iff hsound hnosweep hitem).mp hgone
        -- front to back, each connection up to this one has reached its life time
        have haged : ∀ j ≤ i, ∀ other, w.pool.idle[j]? = some other →
            o.maxConnLifeTime.toInt ≤ ageAt clock (w.now + j) other := by
          intro j
          induction j using Nat.strong_induction_on with
          | _ j ih =>
              intro hj other hother
              have hpast := htests hadmits j other hother
                (fun k hk => ih k hk (by omega))
              have hold := hall j hj other hother
              rw [Clock.read_after] at hold
              exact (overage_iff hlife (hidleDated hother) hpast).mp hold
        exact haged i le_rfl item hitem

/-- In every run, no `Get` destroys a connection before its time if and only if
no `Get` tests one against a reading behind its creation. -/
theorem spares_young_iff (hnone : o.idleTimeoutMs ≤ 0) (hlife : 0 < o.maxConnLifeTime)
    (calls : List (Call α)) :
    Along (step o clock) (SparesYoung o clock) {} calls ↔
      Along (step o clock) (TestsNoFuture o clock) {} calls := by
  apply along_iff (I := fun w : TimedWorld α => w.Sound ∧ w.Dated)
  · rintro w call w' ⟨hsound, hdated⟩ hstep
    exact ⟨step_sound hsound hstep, step_dated hdated hstep⟩
  · rintro w call ⟨hsound, hdated⟩
    exact sparesYoung_iff hnone hlife hsound hdated call
  · exact ⟨ConnectionPool.Sound.new, by simp [Dated]⟩

theorem spares_young_on_still_clock :
    Along (step { maxConnLifeTime := 1000 } (stillClock 5000 (by decide)))
      (SparesYoung { maxConnLifeTime := 1000 } (stillClock 5000 (by decide)))
      ({} : TimedWorld Unit)
      [.get ⟨true, (), none⟩, .put 0 true, .get ⟨true, (), none⟩] := by
  apply (spares_young_iff (by decide) (by decide) _).mpr
  refine ⟨fun _ i item hitem => by simp at hitem, fun w' hget => ⟨trivial, fun w'' hput => ?_⟩⟩
  cases hget
  cases hput
  refine ⟨fun _ i item hitem _ => ?_, fun _ _ => trivial⟩
  cases i with
  | zero =>
      cases hitem
      decide
  | succ i => cases hitem

/-- A clock that goes back by a millisecond after three readings. -/
def setBackClock : Clock := fun i =>
  if i < 3 then some ⟨5, 0, by decide, by decide⟩ else some ⟨4, 999000, by decide, by decide⟩

/-- A connection is destroyed in the millisecond before the one it was created
in, though its life time is a second. -/
theorem young_connection_destroyed :
    ∃ (w : TimedWorld Unit) (item : ListItem Unit),
      run (step { maxConnLifeTime := 1000 } setBackClock) {} [.get ⟨true, (), none⟩, .put 0 true] =
        .ok w ∧
      w.pool.idle[0]? = some item ∧ ageAt setBackClock w.now item = -1 ∧
      ¬SparesYoung { maxConnLifeTime := 1000 } setBackClock w (.get ⟨true, (), none⟩) := by
  refine ⟨_, _, rfl, rfl, rfl, ?_⟩
  intro hspares
  have haged := hspares 0 _ rfl (by decide)
  revert haged
  decide

end TimedWorld

end CloRedis
