import CloRedis.Manager.State

/-!
The manager seen slot by slot. After the first `Init` or `InitEx`, and as long
as nothing is flushed, every slot holds no pool or the one pool ever created
for it, and what a call does to a slot depends on that slot alone.
-/

namespace CloRedis

open Library

variable {C D W : Type}

/-- Every connection of a pool, idle or lent, has a property. -/
def PoolCell.AllConns (cell : PoolCell C) (Q : RedisConnectionImpl C PoolPtr → Prop) : Prop :=
  ∀ item, item ∈ cell.world.pool.idle ∨ item ∈ cell.world.lent → Q item.object

/-- A pool in use: its books are right and its connections point back to it. -/
structure PoolCell.Intact (ptr : PoolPtr) (cell : PoolCell C) : Prop where
  live : cell.deleted = false
  books : cell.world.Sound
  back : cell.AllConns fun conn => conn.pool = some ptr

/-- What a slot holds, and the pools created for it. -/
inductive SlotIntact (s : Slot) : Option PoolPtr → List (PoolCell C) → Prop where
  | empty : SlotIntact s none []
  | full (cell : PoolCell C) : cell.Intact ⟨s, 0⟩ → SlotIntact s (some ⟨s, 0⟩) [cell]

namespace PoolCell

variable {self : PoolPtr} {cell : PoolCell C}

/-- What `Get` hands out was idle or was accepted by the init handler. -/
theorem AllConns.get {Q : RedisConnectionImpl C PoolPtr → Prop} {h : Hiredis C D W}
    {env : GetEnv D W} (hcell : cell.AllConns Q)
    (hnew : ∀ conn, (RedisConnectionImpl.new (some self) env.garbage).initHandler h cell.binding
      env.connect = (true, conn) → Q conn) :
    (cell.get h self env).2.AllConns Q := by
  have heffect := ConnectionPool.get_effect cell.option env.clock
    (RedisConnectionImpl.callEnv h cell.binding self env.malloc env.garbage env.connect)
    cell.world.pool
  intro item hitem
  rcases hitem with hidle | hout
  · exact hcell item (.inl (heffect.idle.subset hidle))
  · rcases List.mem_append.mp hout with hgot | hlent
    · rcases heffect.item item (by simpa using hgot) with hidle | hbuilt
      · exact hcell item (.inl hidle)
      · rcases hbuilt.builds with ⟨hnone, _⟩ | ⟨handler, hhandler, hrun⟩
        · cases hnone
        · cases hhandler
          exact hnew item.object hrun
    · exact hcell item (.inr hlent)

/-- `Done` on a connection of the pool. -/
def done (block : Block) (now : Option Timeval) (cell : PoolCell C) : Except Fault (PoolCell C) :=
  match takeFirst (isBlock block) cell.world.lent with
  | none => .error .notLent
  | some (item, rest) =>
      .ok ((cell.withLent rest).put (getCurrentTimeMs now) (item.update fun impl => impl.done.2)
        item.object.done.1)

/-- `Do` on a connection of the pool. -/
def doCommand (h : Hiredis C D W) (block : Block) (command : Command) (wire : W)
    (cell : PoolCell C) : Except Fault (PoolCell C) :=
  match takeFirst (isBlock block) cell.world.lent with
  | none => .error .notLent
  | some (item, rest) =>
      .ok (cell.withLent ((item.update fun impl => impl.doCommand h command wire) :: rest))

theorem done_ok {block : Block} {now : Option Timeval} {cell' : PoolCell C}
    (hdone : cell.done block now = .ok cell') :
    ∃ item rest, takeFirst (isBlock block) cell.world.lent = some (item, rest) ∧
      cell' = (cell.withLent rest).put (getCurrentTimeMs now)
        (item.update fun impl => impl.done.2) item.object.done.1 := by
  cases htake : takeFirst (isBlock block) cell.world.lent with
  | none => simp [done, htake] at hdone
  | some r =>
      obtain ⟨item, rest⟩ := r
      simp only [done, htake, Except.ok.injEq] at hdone
      exact ⟨item, rest, rfl, hdone.symm⟩

theorem doCommand_ok {h : Hiredis C D W} {block : Block} {command : Command} {wire : W}
    {cell' : PoolCell C} (hdo : cell.doCommand h block command wire = .ok cell') :
    ∃ item rest, takeFirst (isBlock block) cell.world.lent = some (item, rest) ∧
      cell' = cell.withLent ((item.update fun impl => impl.doCommand h command wire) :: rest) := by
  cases htake : takeFirst (isBlock block) cell.world.lent with
  | none => simp [doCommand, htake] at hdo
  | some r =>
      obtain ⟨item, rest⟩ := r
      simp only [doCommand, htake, Except.ok.injEq] at hdo
      exact ⟨item, rest, rfl, hdo.symm⟩

theorem AllConns.done {Q : RedisConnectionImpl C PoolPtr → Prop} {block : Block}
    {now : Option Timeval} {cell' : PoolCell C} (hcell : cell.AllConns Q)
    (hQ : ∀ conn, Q conn → Q conn.done.2) (hdone : cell.done block now = .ok cell') :
    cell'.AllConns Q := by
  obtain ⟨item, rest, htake, rfl⟩ := done_ok hdone
  have hperm := takeFirst_perm htake
  have hitem := hcell item (.inr (hperm.symm.subset (List.mem_cons_self ..)))
  intro other hother
  rcases hother with hidle | hrest
  · rcases (ConnectionPool.put_effect _ _ _ _ _).idle other hidle with hold | ⟨_, rfl⟩
    · exact hcell other (.inl hold)
    · exact hQ item.object hitem
  · exact hcell other (.inr (hperm.symm.subset (List.mem_cons_of_mem _ hrest)))

/-- `Do` touches the connection it is called on; the others stay as they are. -/
theorem AllConns.doCommand {Q : RedisConnectionImpl C PoolPtr → Prop} {h : Hiredis C D W}
    {block : Block} {command : Command} {wire : W} {cell' : PoolCell C} (hcell : cell.AllConns Q)
    (hQ : ∀ item ∈ cell.world.lent, item.block = block → Q item.object →
      Q (item.object.doCommand h command wire))
    (hdo : cell.doCommand h block command wire = .ok cell') : cell'.AllConns Q := by
  obtain ⟨item, rest, htake, rfl⟩ := doCommand_ok hdo
  have hperm := takeFirst_perm htake
  have hmem := hperm.symm.subset (List.mem_cons_self (a := item) ..)
  have hblock : item.block = block := by simpa [isBlock] using (takeFirst_split htake).1
  intro other hother
  rcases hother with hidle | hout
  · exact hcell other (.inl hidle)
  · rcases List.mem_cons.mp hout with rfl | hrest
    · exact hQ item hmem hblock (hcell item (.inr hmem))
    · exact hcell other (.inr (hperm.symm.subset (List.mem_cons_of_mem _ hrest)))

/-- The connection `Get` hands out is lent. -/
theorem get_lent {h : Hiredis C D W} {env : GetEnv D W} {block : Block}
    (hget : (cell.get h self env).1 = some block) :
    ∃ item ∈ (cell.get h self env).2.world.lent, item.block = block := by
  obtain ⟨item, hitem, hblock⟩ := Option.map_eq_some_iff.mp hget
  refine ⟨item, ?_, hblock⟩
  apply List.mem_append_left
  rw [hitem]
  exact List.mem_singleton_self item

theorem Intact.new (binding : Binding) (option : ConnectionPoolOption) :
    ({ binding := binding, option := option } : PoolCell C).Intact self := by
  refine ⟨rfl, ConnectionPool.Sound.new, ?_⟩
  intro item hitem
  simp at hitem

theorem Intact.get (h : Hiredis C D W) (env : GetEnv D W) (hcell : cell.Intact self) :
    (cell.get h self env).2.Intact self := by
  refine ⟨hcell.live, ConnectionPool.Sound.get hcell.books, hcell.back.get ?_⟩
  intro conn hrun
  have hpool := RedisConnectionImpl.initHandler_pool h cell.binding env.connect
    (RedisConnectionImpl.new (some self) env.garbage)
  rw [hrun] at hpool
  exact hpool

theorem Intact.done {block : Block} {now : Option Timeval} {cell' : PoolCell C}
    (hcell : cell.Intact self) (hdone : cell.done block now = .ok cell') : cell'.Intact self := by
  have hback := hcell.back.done (fun _ hpool => hpool) hdone
  obtain ⟨item, rest, htake, rfl⟩ := done_ok hdone
  have hperm := takeFirst_perm htake
  have hraw : cell.world.pool.Sound ((item.update fun impl => impl.done.2) :: rest) :=
    ConnectionPool.Sound.congr (hcell.books.perm hperm.symm) (List.Perm.refl _) (List.Perm.refl _)
  exact ⟨hcell.live, ConnectionPool.Sound.put hraw, hback⟩

theorem Intact.doCommand {h : Hiredis C D W} {block : Block} {command : Command} {wire : W}
    {cell' : PoolCell C} (hcell : cell.Intact self)
    (hdo : cell.doCommand h block command wire = .ok cell') : cell'.Intact self := by
  have hback := hcell.back.doCommand
    (fun item _ _ hpool => (RedisConnectionImpl.doCommand_pool h _ command wire).trans hpool) hdo
  obtain ⟨item, rest, htake, rfl⟩ := doCommand_ok hdo
  have hperm := takeFirst_perm htake
  exact ⟨hcell.live, ConnectionPool.Sound.congr (hcell.books.perm hperm.symm) (List.Perm.refl _)
    (List.Perm.refl _), hback⟩

end PoolCell

namespace ManagerWorld

/-- The pointer a slot holds. -/
def slotPtr (w : ManagerWorld C) : Slot → Option PoolPtr
  | .master db => w.master db
  | .slave db index =>
      match w.slave db with
      | none => none
      | some gen =>
          match (w.arrays db)[gen]? with
          | none => none
          | some array => (array.entries[index]?).join

/-- The pool of a slot. -/
def poolAt (w : ManagerWorld C) (s : Slot) : Option (PoolCell C) :=
  (w.slotPtr s).bind w.cellAt

/-- The manager between its first `Init` and a `Flush`. -/
structure Intact (w : ManagerWorld C) : Prop where
  slaves : w.slaveCnt = w.slaveAddr.length
  arrays : ∀ db gen, w.slave db = some gen → ∃ array, (w.arrays db)[gen]? = some array ∧
    array.freed = false ∧ array.entries.length = w.slaveCnt
  slots : ∀ s, SlotIntact s (w.slotPtr s) (w.pools s)

variable {w : ManagerWorld C}

namespace Intact

theorem full (hw : w.Intact) {s : Slot} {cell : PoolCell C} (hcell : w.poolAt s = some cell) :
    w.slotPtr s = some ⟨s, 0⟩ ∧ w.pools s = [cell] ∧ cell.Intact ⟨s, 0⟩ := by
  have hslot := hw.slots s
  generalize hptr : w.slotPtr s = ptr at hslot
  generalize hcells : w.pools s = cells at hslot
  cases hslot with
  | empty => simp [poolAt, hptr] at hcell
  | full cell' hintact =>
      simp only [poolAt, hptr, Option.bind_some, cellAt, hcells, List.getElem?_cons_zero,
        Option.some.injEq] at hcell
      subst hcell
      exact ⟨rfl, rfl, hintact⟩

theorem empty (hw : w.Intact) {s : Slot} (hnone : w.poolAt s = none) :
    w.slotPtr s = none ∧ w.pools s = [] := by
  have hslot := hw.slots s
  generalize hptr : w.slotPtr s = ptr at hslot
  generalize hcells : w.pools s = cells at hslot
  cases hslot with
  | empty => exact ⟨rfl, rfl⟩
  | full cell' hintact => simp [poolAt, hptr, cellAt, hcells] at hnone

/-- A pointer that leads to a pool leads to the pool of its slot. -/
theorem cell_of_ptr (hw : w.Intact) {ptr : PoolPtr} {cell : PoolCell C}
    (hcell : w.cellAt ptr = some cell) : ptr.gen = 0 ∧ w.poolAt ptr.slot = some cell := by
  have hslot := hw.slots ptr.slot
  generalize hptr : w.slotPtr ptr.slot = found at hslot
  generalize hcells : w.pools ptr.slot = cells at hslot
  cases hslot with
  | empty => simp [cellAt, hcells] at hcell
  | full cell' hintact =>
      rw [cellAt, hcells, List.getElem?_singleton] at hcell
      split at hcell
      · rename_i hgen
        refine ⟨hgen, ?_⟩
        simp only [poolAt, hptr, Option.bind_some, cellAt, hcells, List.getElem?_cons_zero]
        exact hcell
      · cases hcell

end Intact

/-! ### Changing one slot -/

/-- Only the pool of a slot changes. -/
structure SlotChange (w w' : ManagerWorld C) (s : Slot) (cell : PoolCell C) : Prop where
  intact : w'.Intact
  config : w'.toManagerConfig = w.toManagerConfig
  here : w'.poolAt s = some cell
  others : ∀ k, k ≠ s → w'.poolAt k = w.poolAt k

@[simp] theorem slotPtr_setPool (ptr : PoolPtr) (cell : PoolCell C) :
    (w.setPool ptr cell).slotPtr = w.slotPtr := by
  funext s
  cases s <;> rfl

theorem Intact.ptr_slot (hw : w.Intact) {s : Slot} {ptr : PoolPtr}
    (hptr : w.slotPtr s = some ptr) : ptr = ⟨s, 0⟩ := by
  have hslot := hw.slots s
  rw [hptr] at hslot
  generalize w.pools s = cells at hslot
  cases hslot
  rfl

/-- A state that differs from an intact one in the pool of one slot. -/
theorem Intact.change (hw : w.Intact) {w' : ManagerWorld C} {s : Slot} {cell : PoolCell C}
    (hcell : cell.Intact ⟨s, 0⟩) (hconfig : w'.toManagerConfig = w.toManagerConfig)
    (harrays : ∀ db gen, w'.slave db = some gen → ∃ array, (w'.arrays db)[gen]? = some array ∧
      array.freed = false ∧ array.entries.length = w'.slaveCnt)
    (hptr : w'.slotPtr s = some ⟨s, 0⟩) (hptrs : ∀ k, k ≠ s → w'.slotPtr k = w.slotPtr k)
    (hpool : w'.pools s = [cell]) (hpools : ∀ k, k ≠ s → w'.pools k = w.pools k) :
    SlotChange w w' s cell where
  intact := by
    refine ⟨?_, harrays, ?_⟩
    · have hslaves := hw.slaves
      rw [← hconfig] at hslaves
      exact hslaves
    · intro k
      by_cases hk : k = s
      · subst hk
        rw [hptr, hpool]
        exact .full cell hcell
      · rw [hptrs k hk, hpools k hk]
        exact hw.slots k
  config := hconfig
  here := by
    simp [poolAt, hptr, cellAt, hpool]
  others := by
    intro k hk
    unfold poolAt
    rw [hptrs k hk]
    cases hfound : w.slotPtr k with
    | none => rfl
    | some ptr =>
        have hslot : ptr.slot = k := by rw [hw.ptr_slot hfound]
        simp only [Option.bind_some, cellAt, hslot, hpools k hk]

theorem Intact.setPool (hw : w.Intact) {s : Slot} {old cell : PoolCell C}
    (hold : w.poolAt s = some old) (hcell : cell.Intact ⟨s, 0⟩) :
    SlotChange w (w.setPool ⟨s, 0⟩ cell) s cell := by
  obtain ⟨hptr, hcells, _⟩ := hw.full hold
  refine hw.change hcell rfl hw.arrays ?_ ?_ ?_ ?_
  · rw [slotPtr_setPool, hptr]
  · intro k _
    rw [slotPtr_setPool]
  · simp [ManagerWorld.setPool, hcells]
  · intro k hk
    simp [ManagerWorld.setPool, Function.update_of_ne hk]

/-! ### Creating the pool of a slot -/

end ManagerWorld

/-- The pool the manager creates for a slot. -/
def ManagerConfig.freshPool (cfg : ManagerConfig) : Slot → PoolCell C
  | .master db => { binding := cfg.bindingFor cfg.masterAddr db, option := cfg.option }
  | .slave db index =>
      { binding := cfg.bindingFor (cfg.slaveAddr.getD index {}) db, option := cfg.option }

theorem ManagerConfig.freshPool_intact (cfg : ManagerConfig) (s : Slot) (ptr : PoolPtr) :
    (cfg.freshPool s : PoolCell C).Intact ptr := by
  cases s <;> exact PoolCell.Intact.new _ _

namespace ManagerWorld

variable {w : ManagerWorld C}

/-- Create the pool of a slot. -/
def createPool (w : ManagerWorld C) : Slot → Except Fault (ManagerWorld C)
  | .master db => w.initConnectionPool .master db 0
  | .slave db index => w.initConnectionPool .slave db index

/-- The arrays in use are allocated, with an entry for every slave. -/
def ArraysLive (w : ManagerWorld C) : Prop :=
  ∀ db gen, w.slave db = some gen → ∃ array, (w.arrays db)[gen]? = some array ∧
    array.freed = false ∧ array.entries.length = w.slaveCnt

/-- The pool of a slot is created, and nothing else happens. -/
structure Created (w w' : ManagerWorld C) (s : Slot) : Prop where
  config : w'.toManagerConfig = w.toManagerConfig
  inited : w'.inited = w.inited
  arrays : w'.ArraysLive
  slave : ∀ db gen, w'.slave db = some gen →
    w.slave db = some gen ∨ ∃ index, s = .slave db index
  slotPtr : w'.slotPtr = Function.update w.slotPtr s (some ⟨s, (w.pools s).length⟩)
  pools : w'.pools = Function.update w.pools s (w.pools s ++ [w.freshPool s])

theorem create_master (harrays : w.ArraysLive) (db : Fin maxDbNum) (slaveSlot : Nat) :
    ∃ w', w.initConnectionPool .master db slaveSlot = .ok w' ∧ Created w w' (.master db) := by
  refine ⟨_, rfl, rfl, rfl, harrays, fun _ _ hgen => .inl hgen, ?_, rfl⟩
  funext k
  cases k with
  | master other =>
      by_cases hother : other = db
      · subst hother
        simp [slotPtr]
      · have hne : Slot.master other ≠ .master db := fun heq => hother (Slot.master.inj heq)
        simp [slotPtr, Function.update_of_ne hother, Function.update_of_ne hne]
  | slave other index => rfl

/-- `slave_[db]` is there, with an entry for every slave. -/
structure Allocated (w w' : ManagerWorld C) (db : Fin maxDbNum) : Prop where
  config : w'.toManagerConfig = w.toManagerConfig
  inited : w'.inited = w.inited
  arrays : w'.ArraysLive
  slave : ∀ other gen, w'.slave other = some gen → w.slave other = some gen ∨ other = db
  slotPtr : w'.slotPtr = w.slotPtr
  pools : w'.pools = w.pools
  here : ∃ gen, w'.slave db = some gen

theorem ensureArray_allocated (harrays : w.ArraysLive) (hslaves : w.slaveCnt = w.slaveAddr.length)
    (db : Fin maxDbNum) : Allocated w (w.ensureArray db) db := by
  unfold ManagerWorld.ensureArray
  cases hslave : w.slave db with
  | some gen => exact ⟨rfl, rfl, harrays, fun _ _ hgen => .inl hgen, rfl, rfl, gen, hslave⟩
  | none =>
      refine ⟨rfl, rfl, ?_, ?_, ?_, rfl, _, Function.update_self ..⟩
      · intro other gen hgen
        dsimp only at hgen ⊢
        by_cases hother : other = db
        · subst hother
          rw [Function.update_self, Option.some.injEq] at hgen
          subst hgen
          rw [Function.update_self]
          exact ⟨_, List.getElem?_concat_length, rfl, by simp [hslaves]⟩
        · rw [Function.update_of_ne hother] at hgen ⊢
          exact harrays other gen hgen
      · intro other gen hgen
        by_cases hother : other = db
        · exact .inr hother
        · left
          dsimp only at hgen
          rwa [Function.update_of_ne hother] at hgen
      · funext k
        cases k with
        | master other => rfl
        | slave other index =>
            by_cases hother : other = db
            · subst hother
              simp only [slotPtr, Function.update_self, List.getElem?_concat_length, hslave,
                List.getElem?_replicate]
              split <;> rfl
            · simp only [slotPtr, Function.update_of_ne hother]

theorem liveArray_ok {db : Fin maxDbNum} {gen : Nat} {array : SlaveArray}
    (harray : (w.arrays db)[gen]? = some array) (hlive : array.freed = false) :
    w.liveArray db gen = .ok array := by
  simp [liveArray, harray, hlive]

theorem writeSlave_ok {db : Fin maxDbNum} {gen index : Nat} {array : SlaveArray} (ptr : PoolPtr)
    (hslave : w.slave db = some gen) (harray : (w.arrays db)[gen]? = some array)
    (hlive : array.freed = false) (hindex : index < array.entries.length) :
    w.writeSlave db index ptr =
      .ok (w.setArray db gen { array with entries := array.entries.set index (some ptr) }) := by
  simp only [writeSlave, hslave, liveArray_ok harray hlive]
  exact if_pos hindex

/-- Writing an entry of a live array changes the pointer of one slot. -/
theorem slotPtr_setArray {db : Fin maxDbNum} {gen index : Nat} {array : SlaveArray} (ptr : PoolPtr)
    (hslave : w.slave db = some gen) (harray : (w.arrays db)[gen]? = some array)
    (hindex : index < array.entries.length) :
    (w.setArray db gen { array with entries := array.entries.set index (some ptr) }).slotPtr =
      Function.update w.slotPtr (.slave db index) (some ptr) := by
  obtain ⟨hgen, hfound⟩ := List.getElem?_eq_some_iff.mp harray
  funext k
  cases k with
  | master other => rfl
  | slave other i =>
      by_cases hother : other = db
      · subst hother
        by_cases hi : i = index
        · subst hi
          rw [Function.update_self]
          simp [slotPtr, setArray, hslave, hgen, hindex]
        · have hne : Slot.slave other i ≠ .slave other index := by
            intro heq
            cases heq
            exact hi rfl
          rw [Function.update_of_ne hne]
          simp [slotPtr, setArray, hslave, hgen, hfound, List.getElem?_set_ne (Ne.symm hi)]
      · have hne : Slot.slave other i ≠ .slave db index := by
          intro heq
          cases heq
          exact hother rfl
        rw [Function.update_of_ne hne]
        simp [slotPtr, setArray, Function.update_of_ne hother]

/-- Writing an entry keeps the arrays allocated and as long as they were. -/
theorem ArraysLive.setArray (harrays : w.ArraysLive) {db : Fin maxDbNum} {gen index : Nat}
    {array : SlaveArray} (ptr : PoolPtr) (harray : (w.arrays db)[gen]? = some array)
    (hslave : w.slave db = some gen) :
    (w.setArray db gen
      { array with entries := array.entries.set index (some ptr) }).ArraysLive := by
  intro other gen' hgen'
  obtain ⟨found, hfound, hfree, hcount⟩ := harrays other gen' hgen'
  by_cases hother : other = db
  · subst hother
    cases hslave.symm.trans hgen'
    cases harray.symm.trans hfound
    have hbound := (List.getElem?_eq_some_iff.mp harray).1
    refine ⟨{ array with entries := array.entries.set index (some ptr) }, ?_, hfree,
      List.length_set.trans hcount⟩
    simp [ManagerWorld.setArray, hbound]
  · refine ⟨found, ?_, hfree, hcount⟩
    simp [ManagerWorld.setArray, Function.update_of_ne hother, hfound]

/-- Storing a pointer in an array that is in use. -/
theorem writeSlave_stores (harrays : w.ArraysLive) {db : Fin maxDbNum} {gen index : Nat}
    (ptr : PoolPtr) (hslave : w.slave db = some gen) (hindex : index < w.slaveCnt) :
    ∃ w', w.writeSlave db index ptr = .ok w' ∧ w'.ArraysLive ∧
      w'.slotPtr = Function.update w.slotPtr (.slave db index) (some ptr) ∧
      w'.toManagerConfig = w.toManagerConfig ∧ w'.inited = w.inited ∧ w'.slave = w.slave ∧
      w'.pools = w.pools := by
  obtain ⟨array, harray, hlive, hlength⟩ := harrays db gen hslave
  have hentry : index < array.entries.length := by omega
  exact ⟨_, writeSlave_ok ptr hslave harray hlive hentry, harrays.setArray ptr harray hslave,
    slotPtr_setArray ptr hslave harray hentry, rfl, rfl, rfl, rfl⟩

theorem slotPtr_newPool (s : Slot) (binding : Binding) :
    (w.newPool s binding).2.slotPtr = w.slotPtr := by
  funext k
  cases k <;> rfl

theorem create_slave (harrays : w.ArraysLive) (hslaves : w.slaveCnt = w.slaveAddr.length)
    (db : Fin maxDbNum) {index : Nat} (hindex : index < w.slaveCnt) :
    ∃ w', w.initConnectionPool .slave db index = .ok w' ∧ Created w w' (.slave db index) := by
  have hallocated := ensureArray_allocated harrays hslaves db
  obtain ⟨gen, hgen⟩ := hallocated.here
  have haddr : w.slaveAddr[index]? = some (w.slaveAddr.getD index {}) := by
    have hbound : index < w.slaveAddr.length := by
      rw [← hslaves]
      exact hindex
    simp [hbound]
  have hinit : w.initConnectionPool .slave db index =
      ((w.ensureArray db).newPool (.slave db index)
        ((w.ensureArray db).bindingFor (w.slaveAddr.getD index {}) db)).2.writeSlave db index
        ⟨.slave db index, (w.pools (.slave db index)).length⟩ := by
    simp only [initConnectionPool, haddr, newPool, hallocated.pools]
  generalize w.ensureArray db = w₁ at hallocated hgen hinit
  have hcount : index < w₁.slaveCnt := by
    rw [hallocated.config]
    exact hindex
  -- the pool is created and its pointer stored
  obtain ⟨w', hwrite, harrays', hptr, hconfig, hinited, hslave, hpools⟩ :=
    writeSlave_stores (w := (w₁.newPool (.slave db index)
      (w₁.bindingFor (w.slaveAddr.getD index {}) db)).2) hallocated.arrays
      ⟨.slave db index, (w.pools (.slave db index)).length⟩ hgen hcount
  refine ⟨w', hinit.trans hwrite, hconfig.trans hallocated.config,
    hinited.trans hallocated.inited, harrays', ?_, ?_, ?_⟩
  · intro other gen' hgen'
    rw [hslave] at hgen'
    rcases hallocated.slave other gen' hgen' with hold | rfl
    · exact .inl hold
    · exact .inr ⟨index, rfl⟩
  · rw [hptr, slotPtr_newPool, hallocated.slotPtr]
  · rw [hpools]
    simp only [newPool, hallocated.pools, hallocated.config, ManagerConfig.freshPool]

/-- Creating the pool of an empty slot. -/
theorem Intact.created (hw : w.Intact) {w' : ManagerWorld C} {s : Slot}
    (hnone : w.poolAt s = none) (hcreated : Created w w' s) :
    SlotChange w w' s (w.freshPool s) := by
  obtain ⟨_, hcells⟩ := hw.empty hnone
  apply hw.change (ManagerConfig.freshPool_intact _ _ _) hcreated.config hcreated.arrays
  · simp [hcreated.slotPtr, hcells]
  · intro k hk
    rw [hcreated.slotPtr, Function.update_of_ne hk]
  · simp [hcreated.pools, hcells]
  · intro k hk
    rw [hcreated.pools, Function.update_of_ne hk]

theorem Intact.create_master (hw : w.Intact) {db : Fin maxDbNum} (slaveSlot : Nat)
    (hnone : w.poolAt (.master db) = none) :
    ∃ w', w.initConnectionPool .master db slaveSlot = .ok w' ∧
      SlotChange w w' (.master db) (w.freshPool (.master db)) := by
  obtain ⟨w', hinit, hcreated⟩ := ManagerWorld.create_master hw.arrays db slaveSlot
  exact ⟨w', hinit, hw.created hnone hcreated⟩

theorem Intact.create_slave (hw : w.Intact) {db : Fin maxDbNum} {index : Nat}
    (hindex : index < w.slaveCnt) (hnone : w.poolAt (.slave db index) = none) :
    ∃ w', w.initConnectionPool .slave db index = .ok w' ∧
      SlotChange w w' (.slave db index) (w.freshPool (.slave db index)) := by
  obtain ⟨w', hinit, hcreated⟩ := ManagerWorld.create_slave hw.arrays hw.slaves db hindex
  exact ⟨w', hinit, hw.created hnone hcreated⟩

end ManagerWorld

end CloRedis
