import CloRedis.Manager.Routing

/-!
The counting methods of a manager in use: their loops visit every slot of the
role once, and add up what the pools of these slots hold.
-/

namespace CloRedis

open Library

variable {C D W : Type}

/-- The slots of a role, in the order of the loops. -/
def ManagerConfig.slots (cfg : ManagerConfig) : RedisRole → List Slot
  | .master => (List.finRange maxDbNum).map .master
  | .slave =>
      (List.finRange maxDbNum).flatMap fun db => (List.range cfg.slaveCnt).map (.slave db)

theorem ManagerConfig.slots_nodup (cfg : ManagerConfig) (role : RedisRole) :
    (cfg.slots role).Nodup := by
  cases role with
  | master =>
      apply List.Nodup.map
      · intro a b hab
        exact Slot.master.inj hab
      · exact List.nodup_finRange _
  | slave =>
      rw [ManagerConfig.slots, List.nodup_flatMap]
      constructor
      · intro db _
        apply List.Nodup.map
        · intro a b hab
          exact (Slot.slave.inj hab).2
        · exact List.nodup_range
      · apply (List.nodup_finRange maxDbNum).imp
        intro a b hne s hs hs'
        obtain ⟨i, _, rfl⟩ := List.mem_map.mp hs
        obtain ⟨j, _, heq⟩ := List.mem_map.mp hs'
        exact hne (Slot.slave.inj heq).1.symm

namespace ManagerWorld

variable {w : ManagerWorld C} {s : Slot} {cell : PoolCell C}

/-- The sum of something over the pools of a role. -/
def slotSum (w : ManagerWorld C) (role : RedisRole) (count : PoolCell C → Int) : Int :=
  ((w.slots role).map fun s => (w.poolAt s).elim 0 count).sum

/-- A slot with a pool is visited. -/
theorem Intact.mem_slots (hw : w.Intact) (hcell : w.poolAt s = some cell) :
    s ∈ w.slots s.role := by
  cases s with
  | master db =>
      have hmem := List.mem_map_of_mem (f := Slot.master) (List.mem_finRange db)
      exact hmem
  | slave db index =>
      apply List.mem_flatMap.mpr
      refine ⟨db, List.mem_finRange db, List.mem_map_of_mem (List.mem_range.mpr ?_)⟩
      have hptr := (hw.full hcell).1
      cases hslave : w.slave db with
      | none => simp [slotPtr, hslave] at hptr
      | some gen =>
          obtain ⟨array, harray, _, hlength⟩ := hw.arrays db gen hslave
          by_contra hout
          have hentry : array.entries[index]? = none :=
            List.getElem?_eq_none (by omega)
          simp [slotPtr, hslave, harray, hentry] at hptr

/-- What one turn of the loops adds. -/
theorem Intact.add_slot (hw : w.Intact) (s : Slot)
    (count : ConnectionPool (RedisConnectionImpl C PoolPtr) → Int) (total : Int) :
    (match w.slotPtr s with
      | none => .ok total
      | some ptr => do
          let cell ← w.livePool ptr
          .ok (total + count cell.world.pool) : Except Fault Int) =
      .ok (total + (w.poolAt s).elim 0 fun cell => count cell.world.pool) := by
  cases hptr : w.slotPtr s with
  | none => simp [poolAt_none hptr]
  | some ptr =>
      obtain ⟨rfl, cell, hcell⟩ := hw.ptr_some hptr
      dsimp only
      rw [hw.livePool hcell, ok_do, hcell]
      rfl

theorem Intact.countConnections (hw : w.Intact) (role : RedisRole)
    (count : ConnectionPool (RedisConnectionImpl C PoolPtr) → Int) :
    w.countConnections role count = .ok (w.slotSum role fun cell => count cell.world.pool) := by
  unfold ManagerWorld.countConnections slotSum
  cases role with
  | master =>
      have hloop := foldlM_add (fun db (_ : db ∈ List.finRange maxDbNum) total =>
        hw.add_slot (.master db) count total) 0
      rw [zero_add] at hloop
      rw [ManagerConfig.slots, List.map_map]
      exact hloop
  | slave =>
      have hinner (db : Fin maxDbNum) (total : Int) :
          ((List.range w.slaveCnt).foldlM (fun total index => do
            let ptr ← w.readSlave db index
            match ptr with
            | none => .ok total
            | some ptr => do
                let cell ← w.livePool ptr
                .ok (total + count cell.world.pool)) total : Except Fault Int) =
            .ok (total + ((List.range w.slaveCnt).map fun index =>
              (w.poolAt (.slave db index)).elim 0 fun cell => count cell.world.pool).sum) := by
        apply foldlM_add
        intro index hindex total
        rw [ArraysLive.readSlave hw.arrays (List.mem_range.mp hindex), ok_do]
        exact hw.add_slot (.slave db index) count total
      have hloop := foldlM_add (fun db (_ : db ∈ List.finRange maxDbNum) total =>
        hinner db total) 0
      rw [zero_add] at hloop
      rw [ManagerConfig.slots, List.map_flatMap, List.flatMap_def, List.sum_flatten, List.map_map]
      simp only [Function.comp_def, List.map_map]
      exact hloop

theorem slotSum_congr {first second : PoolCell C → Int} (role : RedisRole)
    (hcongr : ∀ s cell, w.poolAt s = some cell → first cell = second cell) :
    w.slotSum role first = w.slotSum role second := by
  unfold slotSum
  congr 1
  apply List.map_congr_left
  intro s _
  cases hcell : w.poolAt s with
  | none => rfl
  | some cell => exact hcongr s cell hcell

theorem slotSum_add (role : RedisRole) (first second : PoolCell C → Int) :
    (w.slotSum role fun cell => first cell + second cell) =
      w.slotSum role first + w.slotSum role second := by
  unfold slotSum
  rw [← List.sum_map_add]
  congr 1
  apply List.map_congr_left
  intro s _
  cases w.poolAt s with
  | none => rfl
  | some cell => rfl

theorem Intact.activeConnectionCount (hw : w.Intact) (role : RedisRole) :
    w.activeConnectionCount role =
      .ok (w.slotSum role fun cell => cell.world.pool.idle.length + cell.world.lent.length) := by
  rw [ManagerWorld.activeConnectionCount, hw.countConnections]
  congr 1
  apply slotSum_congr
  intro s cell hcell
  exact (hw.full hcell).2.2.books.counted

theorem Intact.connectionInPool (hw : w.Intact) (role : RedisRole) :
    w.connectionInPool role = .ok (w.slotSum role fun cell => cell.world.pool.idle.length) :=
  hw.countConnections role _

theorem Intact.connectionInUse (hw : w.Intact) (role : RedisRole) :
    w.connectionInUse role = .ok (w.slotSum role fun cell => cell.world.lent.length) := by
  rw [ManagerWorld.connectionInUse, hw.activeConnectionCount, ok_do, hw.connectionInPool, ok_do,
    slotSum_add]
  congr 1
  omega

end ManagerWorld

end CloRedis
