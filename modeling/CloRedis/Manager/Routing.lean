import CloRedis.Manager.Slots

/-!
What `Get`, `Do` and `Done` do on a manager in use: `Get` is routed to one
slot and creates its pool when there is none, `Do` and `Done` reach the pool
the connection points to, and nothing else changes.
-/

namespace CloRedis

open Library

variable {C D W : Type}

/-- The slot `Get` uses. -/
def ManagerConfig.route (cfg : ManagerConfig) (db : Fin maxDbNum) (role : RedisRole) (index : Int)
    (rand : Nat) : Slot :=
  if role = .master ∨ cfg.slaveCnt < 1 then .master db
  else .slave db (ManagerWorld.realIndex cfg.slaveCnt index rand)

theorem ManagerConfig.route_db (cfg : ManagerConfig) (db : Fin maxDbNum) (role : RedisRole)
    (index : Int) (rand : Nat) : (cfg.route db role index rand).db = db := by
  unfold ManagerConfig.route
  split <;> rfl

/-- The slot exists under the configuration. -/
def ManagerConfig.HasSlot (cfg : ManagerConfig) : Slot → Prop
  | .master _ => True
  | .slave _ index => index < cfg.slaveCnt

namespace ManagerWorld

variable {w : ManagerWorld C} {s : Slot} {cell : PoolCell C}

theorem realIndex_lt {slaveCnt : Nat} (hpos : 0 < slaveCnt) (index : Int) (rand : Nat) :
    realIndex slaveCnt index rand < slaveCnt := by
  unfold realIndex
  split
  · omega
  · exact Nat.mod_lt _ hpos

theorem route_hasSlot (cfg : ManagerConfig) (db : Fin maxDbNum) (role : RedisRole) (index : Int)
    (rand : Nat) : cfg.HasSlot (cfg.route db role index rand) := by
  unfold ManagerConfig.route
  split
  · trivial
  · exact realIndex_lt (by omega) index rand

theorem dbIndex_val (db : Fin maxDbNum) : dbIndex (db.val : Int) = some db := by
  have hrange : (0 : Int) ≤ db.val ∧ (db.val : Int) < maxDbNum := by
    constructor
    · exact Int.natCast_nonneg _
    · exact_mod_cast db.isLt
  rw [dbIndex, dif_pos hrange]
  simp

theorem SlotChange.trans {w₁ w₂ : ManagerWorld C} {first second : PoolCell C}
    (h₁ : SlotChange w w₁ s first) (h₂ : SlotChange w₁ w₂ s second) : SlotChange w w₂ s second where
  intact := h₂.intact
  config := h₂.config.trans h₁.config
  here := h₂.here
  others k hk := (h₂.others k hk).trans (h₁.others k hk)

theorem poolAt_none (hptr : w.slotPtr s = none) : w.poolAt s = none := by
  rw [poolAt, hptr]
  rfl

namespace Intact

theorem livePool (hw : w.Intact) (hcell : w.poolAt s = some cell) :
    w.livePool ⟨s, 0⟩ = .ok cell := by
  obtain ⟨_, hcells, hintact⟩ := hw.full hcell
  simp [ManagerWorld.livePool, cellAt, hcells, hintact.live]

theorem ptr_some (hw : w.Intact) {ptr : PoolPtr} (hptr : w.slotPtr s = some ptr) :
    ptr = ⟨s, 0⟩ ∧ ∃ cell, w.poolAt s = some cell := by
  have hslot := hw.slots s
  rw [hptr] at hslot
  generalize hcells : w.pools s = cells at hslot
  cases hslot with
  | full cell _ => exact ⟨rfl, cell, by simp [poolAt, hptr, cellAt, hcells]⟩

theorem poolGet (hw : w.Intact) (hcell : w.poolAt s = some cell) (h : Hiredis C D W)
    (env : GetEnv D W) :
    w.poolGet h ⟨s, 0⟩ env =
      .ok ((cell.get h ⟨s, 0⟩ env).1.map (ConnPtr.mk ⟨s, 0⟩),
        w.setPool ⟨s, 0⟩ (cell.get h ⟨s, 0⟩ env).2) := by
  rw [ManagerWorld.poolGet, hw.livePool hcell]
  rfl

theorem poolGet_change (hw : w.Intact) (hcell : w.poolAt s = some cell) (h : Hiredis C D W)
    (env : GetEnv D W) :
    SlotChange w (w.setPool ⟨s, 0⟩ (cell.get h ⟨s, 0⟩ env).2) s (cell.get h ⟨s, 0⟩ env).2 :=
  hw.setPool hcell ((hw.full hcell).2.2.get h env)

end Intact

/-- The pool of a slot as `Get` finds it: a new one when there is none. -/
def poolFor (w : ManagerWorld C) (s : Slot) : PoolCell C :=
  (w.poolAt s).getD (w.freshPool s)

/-- `master_[db]`, or `slave_[db][index]`. -/
def readSlot (w : ManagerWorld C) : Slot → Except Fault (Option PoolPtr)
  | .master db => .ok (w.master db)
  | .slave db index => w.readSlave db index

/-- `Get` once its slot is known. -/
def getSlot (h : Hiredis C D W) (w : ManagerWorld C) (s : Slot) (env : GetEnv D W) :
    Except Fault (Option ConnPtr × ManagerWorld C) := do
  match ← w.readSlot s with
  | some ptr => w.poolGet h ptr env
  | none => do
      let w ← w.createPool s
      let ptr ← w.readSlot s
      w.getAt h env ptr

theorem get_eq (w : ManagerWorld C) (h : Hiredis C D W) (db : Fin maxDbNum) (role : RedisRole)
    (index : Int) (rand : Nat) (env : GetEnv D W) :
    w.get h db.val role index rand env = w.getSlot h (w.route db role index rand) env := by
  have hrange : ¬ (maxDbNum : Int) ≤ db.val := by
    have hlt := db.isLt
    omega
  simp only [ManagerWorld.get, if_neg hrange, dbIndex_val]
  by_cases hrole : role = .master ∨ w.slaveCnt < 1
  · rw [if_pos hrole, ManagerConfig.route, if_pos hrole]
    cases hptr : w.master db <;> simp only [getSlot, readSlot, hptr, ok_do, createPool]
  · rw [if_neg hrole, ManagerConfig.route, if_neg hrole]
    rfl

theorem create_slot (harrays : w.ArraysLive) (hslaves : w.slaveCnt = w.slaveAddr.length)
    (hs : w.HasSlot s) : ∃ w', w.createPool s = .ok w' ∧ Created w w' s := by
  cases s with
  | master db => exact create_master harrays db 0
  | slave db index => exact create_slave harrays hslaves db hs

theorem ArraysLive.readSlave (harrays : w.ArraysLive) {db : Fin maxDbNum} {index : Nat}
    (hindex : index < w.slaveCnt) : w.readSlave db index = .ok (w.slotPtr (.slave db index)) := by
  cases hslave : w.slave db with
  | none => simp [ManagerWorld.readSlave, slotPtr, hslave]
  | some gen =>
      obtain ⟨array, harray, hlive, hlength⟩ := harrays db gen hslave
      have hentry : index < array.entries.length := by omega
      simp only [ManagerWorld.readSlave, slotPtr, hslave, liveArray_ok harray hlive, harray,
        List.getElem?_eq_getElem hentry, ok_do, Option.join_some]

theorem ArraysLive.readSlot (harrays : w.ArraysLive) (hs : w.HasSlot s) :
    w.readSlot s = .ok (w.slotPtr s) := by
  cases s with
  | master db => rfl
  | slave db index => exact harrays.readSlave hs

theorem Intact.getSlot (hw : w.Intact) (hs : w.HasSlot s) (h : Hiredis C D W) (env : GetEnv D W) :
    ∃ w', w.getSlot h s env =
        .ok (((w.poolFor s).get h ⟨s, 0⟩ env).1.map (ConnPtr.mk ⟨s, 0⟩), w') ∧
      SlotChange w w' s ((w.poolFor s).get h ⟨s, 0⟩ env).2 := by
  have hread := ArraysLive.readSlot hw.arrays hs
  unfold ManagerWorld.getSlot
  rw [hread, ok_do]
  cases hptr : w.slotPtr s with
  | some ptr =>
      obtain ⟨rfl, cell, hcell⟩ := hw.ptr_some hptr
      have hfor : w.poolFor s = cell := by rw [poolFor, hcell]; rfl
      rw [hfor]
      exact ⟨_, hw.poolGet hcell h env, hw.poolGet_change hcell h env⟩
  | none =>
      have hnone := poolAt_none hptr
      have hfor : w.poolFor s = w.freshPool s := by rw [poolFor, hnone]; rfl
      obtain ⟨w₁, hcreate, hcreated⟩ := create_slot hw.arrays hw.slaves hs
      have hchange := hw.created hnone hcreated
      have hs₁ : w₁.HasSlot s := by
        rw [hchange.config]
        exact hs
      have hread₁ := ArraysLive.readSlot hchange.intact.arrays hs₁
      rw [(hchange.intact.full hchange.here).1] at hread₁
      rw [hfor]
      refine ⟨_, ?_, hchange.trans (hchange.intact.poolGet_change hchange.here h env)⟩
      dsimp only
      rw [hcreate, ok_do, hread₁, ok_do]
      exact hchange.intact.poolGet hchange.here h env

/-- `Get` finds or creates the pool of the slot it is routed to, and calls it. -/
theorem Intact.get (hw : w.Intact) (h : Hiredis C D W) (db : Fin maxDbNum) (role : RedisRole)
    (index : Int) (rand : Nat) (env : GetEnv D W) {s : Slot}
    (hs : s = w.route db role index rand) :
    ∃ w', w.get h db.val role index rand env =
        .ok (((w.poolFor s).get h ⟨s, 0⟩ env).1.map (ConnPtr.mk ⟨s, 0⟩), w') ∧
      SlotChange w w' s ((w.poolFor s).get h ⟨s, 0⟩ env).2 := by
  rw [get_eq, ← hs]
  apply hw.getSlot
  rw [hs]
  exact route_hasSlot w.toManagerConfig db role index rand

theorem setPool_setPool (ptr : PoolPtr) (first second : PoolCell C) :
    (w.setPool ptr first).setPool ptr second = w.setPool ptr second := by
  simp [ManagerWorld.setPool]

/-- A connection of a pool in use points back to it, so `Done` returns it there. -/
theorem Intact.done (hw : w.Intact) (hcell : w.poolAt s = some cell) (block : Block)
    (now : Option Timeval) :
    w.done ⟨⟨s, 0⟩, block⟩ now = (cell.done block now).map (w.setPool ⟨s, 0⟩) := by
  obtain ⟨_, hcells, hintact⟩ := hw.full hcell
  have hat : w.cellAt ⟨s, 0⟩ = some cell := by simp [cellAt, hcells]
  cases htake : takeFirst (isBlock block) cell.world.lent with
  | none => simp [ManagerWorld.done, PoolCell.done, hat, htake, Except.map]
  | some r =>
      obtain ⟨item, rest⟩ := r
      have hback : item.object.pool = some ⟨s, 0⟩ :=
        hintact.back item (.inr ((takeFirst_perm htake).symm.subset (List.mem_cons_self ..)))
      have hlive : (w.setPool ⟨s, 0⟩ (cell.withLent rest)).livePool ⟨s, 0⟩ =
          .ok (cell.withLent rest) := by
        have hdeleted : (cell.withLent rest).deleted = false := hintact.live
        simp [ManagerWorld.livePool, cellAt, ManagerWorld.setPool, hcells, hdeleted]
      simp only [ManagerWorld.done, PoolCell.done, hat, htake, hback, hlive, ok_do, Except.map,
        setPool_setPool]

theorem doCommand_eq {conn : ConnPtr} (hcell : w.cellAt conn.pool = some cell)
    (h : Hiredis C D W) (command : Command) (wire : W) :
    w.doCommand h conn command wire =
      (cell.doCommand h conn.block command wire).map (w.setPool conn.pool) := by
  cases htake : takeFirst (isBlock conn.block) cell.world.lent with
  | none => simp [ManagerWorld.doCommand, PoolCell.doCommand, hcell, htake, Except.map]
  | some r => simp [ManagerWorld.doCommand, PoolCell.doCommand, hcell, htake, Except.map]

end ManagerWorld

end CloRedis
