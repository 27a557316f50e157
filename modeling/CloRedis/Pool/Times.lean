import CloRedis.Pool.State

/-!
The two tests of `Get` in mathematical integers. The code mixes signed 64-bit
timestamps and limits with an unsigned clock. As long as a timestamp is a
clock reading, the idle test is the comparison it looks like; the lifetime test
is the comparison it looks like when, besides, the clock has not gone back
behind the creation of the connection.
-/

namespace CloRedis

variable {α : Type*}

/-- The milliseconds of a clock reading. -/
def Clock.ms (clock : Clock) (i : Nat) : Int := (clock.read i).toNat

theorem Clock.ms_nonneg (clock : Clock) (i : Nat) : 0 ≤ clock.ms i :=
  Int.natCast_nonneg _

/-- No reading is below an earlier one. -/
def Clock.Steady (clock : Clock) : Prop := ∀ i j, i ≤ j → clock.ms i ≤ clock.ms j

theorem toInt_toInt64 {r : UInt64} (h : r.toNat < 2 ^ 63) : r.toInt64.toInt = r.toNat := by
  have hofNat : r.toInt64 = Int64.ofNat r.toNat := by
    rw [← UInt64.toInt64_ofNat', UInt64.ofNat_toNat]
  rw [hofNat, Int64.toInt_ofNat_of_lt h]

theorem toNat_toUInt64 {x : Int64} (h : 0 ≤ x.toInt) : (x.toUInt64.toNat : Int) = x.toInt := by
  have hle : (0 : Int64) ≤ x := Int64.le_iff_toInt_le.mpr h
  rw [Int64.toNat_toUInt64_of_le hle, ← Int64.toNat_toInt, Int.toNat_of_nonneg h]

theorem Clock.toInt_stamp (clock : Clock) (i : Nat) :
    (clock.read i).toInt64.toInt = clock.ms i :=
  toInt_toInt64 (clock.read_lt i)

theorem pos_iff_toInt_pos {x : Int64} : 0 < x ↔ 0 < x.toInt :=
  Int64.lt_iff_toInt_lt

theorem ListItem.timedOut_iff {o : ConnectionPoolOption} {clock : Clock} {i : Nat}
    {item : ListItem α} (hstamp : 0 ≤ item.activeTime.toInt) (hlimit : 0 < o.idleTimeoutMs) :
    item.timedOut o (clock.read i) = true ↔
      item.activeTime.toInt + o.idleTimeoutMs.toInt < clock.ms i := by
  have hactive := toNat_toUInt64 hstamp
  have htimeout := toNat_toUInt64 (pos_iff_toInt_pos.mp hlimit).le
  have hactiveLt := item.activeTime.toInt_lt
  have htimeoutLt := o.idleTimeoutMs.toInt_lt
  have hsum : item.activeTime.toUInt64.toNat + o.idleTimeoutMs.toUInt64.toNat < 2 ^ 64 := by
    omega
  unfold ListItem.timedOut Clock.ms
  rw [decide_eq_true_eq, UInt64.lt_iff_toNat_lt, Int64.toUInt64_add, UInt64.toNat_add,
    Nat.mod_eq_of_lt hsum]
  omega

theorem ListItem.withinLifeTime_iff {o : ConnectionPoolOption} {clock : Clock} {i : Nat}
    {item : ListItem α} (hstamp : 0 ≤ item.createTime.toInt)
    (hclock : item.createTime.toInt ≤ clock.ms i) :
    item.withinLifeTime o (clock.read i) = true ↔
      ¬(0 < o.maxConnLifeTime.toInt ∧
        o.maxConnLifeTime.toInt ≤ clock.ms i - item.createTime.toInt) := by
  have hcreate := toNat_toUInt64 hstamp
  unfold ListItem.withinLifeTime
  rw [Bool.or_eq_true, decide_eq_true_eq, decide_eq_true_eq, Int64.le_iff_toInt_le,
    UInt64.lt_iff_toNat_lt]
  have hage : item.createTime.toUInt64 ≤ clock.read i := by
    rw [UInt64.le_iff_toNat_le]
    unfold Clock.ms at hclock
    omega
  rw [UInt64.toNat_sub_of_le _ _ hage]
  change o.maxConnLifeTime.toInt ≤ 0 ∨ _ ↔ _
  unfold Clock.ms at hclock ⊢
  by_cases hlife : 0 < o.maxConnLifeTime.toInt
  · have hlimit := toNat_toUInt64 hlife.le
    omega
  · omega

end CloRedis
