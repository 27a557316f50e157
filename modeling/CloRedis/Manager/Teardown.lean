import CloRedis.Manager.Setup

/-!
`Flush`, which is also what the destructor does. It deletes the pools and frees
the arrays but leaves every pointer to them in its slot, so a second `Flush`,
or any call that reaches such a slot, meets what was deleted. Only `Init`
replaces a pointer, and only that of `master_[0]`.
-/

namespace CloRedis

open Library

variable {C D W : Type}

/-- A slot whose pools have all been deleted. -/
theorem SlotState.bury {s : Slot} {found : Option PoolPtr} {cells cells' : List (PoolCell C)}
    (hslot : SlotState s found cells) (hcount : cells'.length = cells.length)
    (hdeleted : ∀ c ∈ cells', c.deleted = true) : SlotState s found cells' := by
  cases hslot with
  | empty =>
      rw [List.eq_nil_of_length_eq_zero hcount]
      exact .empty
  | last older cell _ _ =>
      have hne : cells' ≠ [] := by
        rintro rfl
        simp at hcount
      have hsplit := List.dropLast_append_getLast hne
      have hlength : older.length = cells'.dropLast.length := by
        rw [List.length_dropLast, hcount]
        simp
      rw [← hsplit, hlength]
      apply SlotState.last
      · exact fun c hc => hdeleted c (List.dropLast_subset _ hc)
      · exact .inl (hdeleted _ (List.getLast_mem hne))

namespace ManagerWorld

variable {w w' : ManagerWorld C} {s : Slot} {ptr : PoolPtr} {cell : PoolCell C}
variable {h : Hiredis C D W}

/-- Everything that was lent has come back. -/
def AllReturned (w : ManagerWorld C) : Prop := ∀ conn, ¬w.Lent conn

/-- The manager in the middle of a `Flush` that has been through the slots of
`S` and the arrays of `F`. -/
structure Torn (w : ManagerWorld C) (S : Slot → Prop) (F : Fin maxDbNum → Prop)
    (w' : ManagerWorld C) : Prop where
  config : w'.toManagerConfig = w.toManagerConfig
  master : w'.master = w.master
  slave : w'.slave = w.slave
  slotPtr : w'.slotPtr = w.slotPtr
  deleted : ∀ s, S s → ∀ c ∈ w'.pools s, c.deleted = true
  pools : ∀ s, ¬S s → w'.pools s = w.pools s
  worlds : ∀ s, (w'.pools s).map (·.world) = (w.pools s).map (·.world)
  arrays : ∀ db, ¬F db → w'.arrays db = w.arrays db

theorem Torn.start (w : ManagerWorld C) : Torn w (fun _ => False) (fun _ => False) w :=
  ⟨rfl, rfl, rfl, rfl, fun _ hs => hs.elim, fun _ _ => rfl, fun _ => rfl, fun _ _ => rfl⟩

theorem Torn.congr {S S' : Slot → Prop} {F F' : Fin maxDbNum → Prop} (h : Torn w S F w')
    (hS : ∀ s, S s ↔ S' s) (hF : ∀ db, F db ↔ F' db) : Torn w S' F' w' := by
  have hSeq : S = S' := funext fun s => propext (hS s)
  have hFeq : F = F' := funext fun db => propext (hF db)
  rwa [← hSeq, ← hFeq]

theorem Torn.mono {S : Slot → Prop} {F F' : Fin maxDbNum → Prop} (h : Torn w S F w')
    (hF : ∀ db, F db → F' db) : Torn w S F' w' :=
  ⟨h.config, h.master, h.slave, h.slotPtr, h.deleted, h.pools, h.worlds,
    fun db hdb => h.arrays db fun hold => hdb (hF db hold)⟩

/-- A slot without a pool needs no deleting. -/
theorem Torn.skip {S : Slot → Prop} {F : Fin maxDbNum → Prop} (h : Torn w S F w')
    {T : Slot → Prop} (hT : ∀ s, T s → w.pools s = []) :
    Torn w (fun s => S s ∨ T s) F w' := by
  refine ⟨h.config, h.master, h.slave, h.slotPtr, ?_, ?_, h.worlds, h.arrays⟩
  · intro s hs c hc
    by_cases hS : S s
    · exact h.deleted s hS c hc
    · rw [h.pools s hS, hT s (hs.resolve_left hS)] at hc
      cases hc
  · intro s hs
    exact h.pools s fun hS => hs (.inl hS)

/-- Of the pools a slot has had only the newest may be alive. -/
theorem Tidy.deleted_of_set (hw : w.Tidy) {ptr : PoolPtr} (hptr : w.slotPtr ptr.slot = some ptr)
    {dead : PoolCell C} (hdead : dead.deleted = true) :
    ∀ c ∈ (w.pools ptr.slot).set ptr.gen dead, c.deleted = true := by
  intro c hc
  have hslot := hw.slots ptr.slot
  rw [hptr] at hslot
  have hgen := (hw.slot_of_ptr hptr).2
  generalize w.pools ptr.slot = cells at hslot hc hgen
  generalize some ptr = found at hslot
  cases hslot with
  | empty => simp at hgen
  | last older newest holder hnewest =>
      have heq : ptr.gen = older.length := by simpa using hgen
      rw [heq, List.set_append_right _ _ le_rfl, Nat.sub_self, List.set_cons_zero] at hc
      rcases List.mem_append.mp hc with hold | hlast
      · exact holder c hold
      · rw [List.mem_singleton.mp hlast]
        exact hdead

/-- `delete` of the pool of one slot. -/
theorem Tidy.deleteAt (hw : w.Tidy) (hclear : ¬w.Stale s)
    {S : Slot → Prop} {F : Fin maxDbNum → Prop} (htorn : Torn w S F w') (hs : ¬S s) :
    ∃ w'', w'.deleteAt (w.slotPtr s) = .ok w'' ∧ Torn w (fun k => S k ∨ k = s) F w'' := by
  rcases hw.cases_slot s with ⟨hptr, hpools⟩ | hstale | ⟨ptr, cell, rfl, hat⟩
  · rw [hptr]
    refine ⟨w', rfl, htorn.skip ?_⟩
    rintro k rfl
    exact hpools
  · exact absurd hstale hclear
  · rw [hat.slotPtr]
    have hpools := htorn.pools ptr.slot hs
    have hcell : w'.cellAt ptr = some cell := by
      rw [cellAt, hpools]
      exact hat.cellAt
    have hdelete : w'.deletePool ptr = .ok (w'.setPool ptr { cell with deleted := true }) := by
      simp [deletePool, hcell, hat.intact.live]
    refine ⟨_, hdelete, htorn.config, htorn.master, htorn.slave, ?_, ?_, ?_, ?_, htorn.arrays⟩
    · rw [slotPtr_setPool, htorn.slotPtr]
    · intro k hk c hc
      by_cases hkptr : k = ptr.slot
      · subst hkptr
        simp only [ManagerWorld.setPool, Function.update_self] at hc
        rw [hpools] at hc
        exact hw.deleted_of_set hat.slotPtr rfl c hc
      · simp only [ManagerWorld.setPool, Function.update_of_ne hkptr] at hc
        exact htorn.deleted k (hk.resolve_right hkptr) c hc
    · intro k hk
      rw [not_or] at hk
      simp only [ManagerWorld.setPool, Function.update_of_ne hk.2]
      exact htorn.pools k hk.1
    · intro k
      rw [← htorn.worlds k]
      by_cases hkptr : k = ptr.slot
      · subst hkptr
        simp only [ManagerWorld.setPool, Function.update_self]
        exact map_set_same hcell rfl
      · simp only [ManagerWorld.setPool, Function.update_of_ne hkptr]

/-- `free` of an array that was not freed. -/
theorem Torn.freeArray {S : Slot → Prop} {F : Fin maxDbNum → Prop} (htorn : Torn w S F w')
    (harrays : w.ArraysLive) {db : Fin maxDbNum} {gen : Nat} (hslave : w.slave db = some gen)
    (hdb : ¬F db) :
    ∃ w'', w'.freeArray db gen = .ok w'' ∧ Torn w S (fun k => F k ∨ k = db) w'' := by
  obtain ⟨array, harray, hfreed, _⟩ := harrays db gen hslave
  rw [← htorn.arrays db hdb] at harray
  obtain ⟨hbound, hentry⟩ := List.getElem?_eq_some_iff.mp harray
  have hfree : w'.freeArray db gen = .ok (w'.setArray db gen { array with freed := true }) := by
    simp [ManagerWorld.freeArray, harray, hfreed]
  refine ⟨_, hfree, htorn.config, htorn.master, htorn.slave, ?_, htorn.deleted, htorn.pools,
    htorn.worlds, ?_⟩
  · rw [← htorn.slotPtr]
    funext k
    cases k with
    | master other => rfl
    | slave other index =>
        by_cases hother : other = db
        · subst hother
          have hslave' : w'.slave other = some gen := by
            rw [htorn.slave]
            exact hslave
          simp [ManagerWorld.slotPtr, setArray, hslave', hbound, hentry]
        · simp [ManagerWorld.slotPtr, setArray, Function.update_of_ne hother]
  · intro k hk
    rw [not_or] at hk
    simp only [setArray, Function.update_of_ne hk.2]
    exact htorn.arrays k hk.1

theorem Tidy.pools_of_none (hw : w.Tidy) (hptr : w.slotPtr s = none) : w.pools s = [] := by
  have hslot := hw.slots s
  rw [hptr] at hslot
  generalize w.pools s = cells at hslot
  cases hslot
  rfl

/-- A slave beyond the count has no pool. -/
theorem Tidy.pools_beyond (hw : w.Tidy) {db : Fin maxDbNum} {index : Nat}
    (hindex : w.slaveCnt ≤ index) : w.pools (.slave db index) = [] := by
  have hptr : w.slotPtr (.slave db index) = none := by
    cases hslave : w.slave db with
    | none => simp [slotPtr, hslave]
    | some gen =>
        obtain ⟨array, harray, _, hlength⟩ := hw.arrays db gen hslave
        have hentry : array.entries[index]? = none := List.getElem?_eq_none (by omega)
        simp [slotPtr, hslave, harray, hentry]
  exact hw.pools_of_none hptr

/-- `slave_[db][index]` can be read until its array is freed. -/
theorem Torn.readSlave {S : Slot → Prop} {F : Fin maxDbNum → Prop} (htorn : Torn w S F w')
    (harrays : w.ArraysLive) {db : Fin maxDbNum} {index : Nat} (hdb : ¬F db)
    (hindex : index < w.slaveCnt) : w'.readSlave db index = .ok (w.slotPtr (.slave db index)) := by
  rw [← harrays.readSlave hindex]
  simp only [ManagerWorld.readSlave, ManagerWorld.liveArray, htorn.slave, htorn.arrays db hdb]

/-- No slave beyond the count has a pool, so the loop over the slaves reaches
every slot of the database. -/
theorem Tidy.torn_slaves (hw : w.Tidy) {S : Slot → Prop} {F : Fin maxDbNum → Prop}
    {db : Fin maxDbNum}
    (htorn : Torn w (fun s => S s ∨ ∃ index ∈ List.range w.slaveCnt, s = .slave db index) F w') :
    Torn w (fun s => S s ∨ ∃ index, s = .slave db index) F w' := by
  have hall := htorn.skip (T := fun s => ∃ index, w.slaveCnt ≤ index ∧ s = .slave db index) (by
    rintro s ⟨index, hindex, rfl⟩
    exact hw.pools_beyond hindex)
  apply hall.congr _ fun _ => Iff.rfl
  intro s
  constructor
  · rintro ((hs | ⟨index, _, rfl⟩) | ⟨index, _, rfl⟩)
    · exact .inl hs
    · exact .inr ⟨index, rfl⟩
    · exact .inr ⟨index, rfl⟩
  · rintro (hs | ⟨index, rfl⟩)
    · exact .inl (.inl hs)
    · rcases lt_or_ge index w.slaveCnt with hlt | hge
      · exact .inl (.inr ⟨index, List.mem_range.mpr hlt, rfl⟩)
      · exact .inr ⟨index, hge, rfl⟩

/-- The loop over the slaves of a database. -/
theorem Tidy.deleteSlaves (hw : w.Tidy) (hclear : ∀ s, ¬w.Stale s)
    {S : Slot → Prop} {F : Fin maxDbNum → Prop} (htorn : Torn w S F w') {db : Fin maxDbNum}
    (hdb : ¬F db) (hS : ∀ index, ¬S (.slave db index)) :
    ∃ w'', (List.range w'.slaveCnt).foldlM (fun w index => do
        let ptr ← w.readSlave db index
        w.deleteAt ptr) w' = .ok w'' ∧
      Torn w (fun s => S s ∨ ∃ index, s = .slave db index) F w'' := by
  have hcount : w'.slaveCnt = w.slaveCnt := congrArg ManagerConfig.slaveCnt htorn.config
  rw [hcount]
  have hloop := foldlM_done (s := w') (l := List.range w.slaveCnt)
    (f := fun w index => do
      let ptr ← w.readSlave db index
      w.deleteAt ptr)
    (I := fun indices v => Torn w (fun s => S s ∨ ∃ index ∈ indices, s = .slave db index) F v)
  obtain ⟨w'', hdelete, htorn'⟩ := hloop (by
    intro indices index rest v hrange hv
    have hindex : index < w.slaveCnt := by
      apply List.mem_range.mp
      rw [hrange]
      simp
    have hnew :
        ¬(S (.slave db index) ∨ ∃ other ∈ indices, Slot.slave db index = .slave db other) := by
      rintro (hold | ⟨other, hother, heq⟩)
      · exact hS index hold
      · cases heq
        have hnodup : (indices ++ index :: rest).Nodup := hrange ▸ List.nodup_range
        exact (List.nodup_append.mp hnodup).2.2 index hother index (List.mem_cons_self ..) rfl
    obtain ⟨v', hdelete, hv'⟩ := hw.deleteAt (hclear (.slave db index)) hv hnew
    refine ⟨v', ?_, hv'.congr ?_ fun _ => Iff.rfl⟩
    · rw [hv.readSlave hw.arrays hdb hindex, ok_do]
      exact hdelete
    · intro s
      simp only [List.mem_append, List.mem_singleton, or_assoc, or_and_right, exists_or,
        exists_eq_left]) (htorn.congr (by simp) fun _ => Iff.rfl)
  refine ⟨w'', hdelete, ?_⟩
  exact hw.torn_slaves htorn'

/-- The slots of a database. -/
theorem slot_of_db {s : Slot} {db : Fin maxDbNum} :
    s.db = db ↔ s = .master db ∨ ∃ index, s = .slave db index := by
  cases s with
  | master other => simp [Slot.db]
  | slave other index => simp [Slot.db]

/-- One turn of the loop of `Flush`. -/
theorem Tidy.flushDb (hw : w.Tidy) (hclear : ∀ s, ¬w.Stale s)
    {done : List (Fin maxDbNum)} {db : Fin maxDbNum} (hdb : db ∉ done)
    (htorn : Torn w (fun s => s.db ∈ done) (· ∈ done) w') :
    ∃ w'', w'.flushDb db = .ok w'' ∧
      Torn w (fun s => s.db ∈ done ++ [db]) (· ∈ done ++ [db]) w'' := by
  have hslots : ∀ s : Slot, (s.db ∈ done ∨ s = .master db) ∨ (∃ index, s = .slave db index) ↔
      s.db ∈ done ++ [db] := by
    intro s
    rw [List.mem_append, List.mem_singleton, slot_of_db, or_assoc]
  have hdbs : ∀ k, k ∈ done ∨ k = db ↔ k ∈ done ++ [db] := by
    intro k
    rw [List.mem_append, List.mem_singleton]
  obtain ⟨w₁, hmaster, htorn₁⟩ := hw.deleteAt (hclear (.master db)) htorn hdb
  have hmaster' : w'.deleteAt (w'.master db) = .ok w₁ := by
    rw [htorn.master]
    exact hmaster
  unfold ManagerWorld.flushDb
  rw [hmaster', ok_do, congrFun htorn₁.slave db]
  cases hslave : w.slave db with
  | none =>
      have hnone : ∀ s, (∃ index, s = .slave db index) → w.pools s = [] := by
        rintro s ⟨index, rfl⟩
        apply hw.pools_of_none
        simp [slotPtr, hslave]
      have hall := (htorn₁.skip hnone).mono fun k hk => (hdbs k).mp (.inl hk)
      exact ⟨w₁, rfl, hall.congr hslots fun _ => Iff.rfl⟩
  | some gen =>
      have hfresh : ∀ index,
          ¬((Slot.slave db index).db ∈ done ∨ Slot.slave db index = .master db) := by
        rintro index (hmem | heq)
        · exact hdb hmem
        · cases heq
      obtain ⟨w₂, hdelete, htorn₂⟩ := hw.deleteSlaves hclear htorn₁ hdb hfresh
      obtain ⟨w₃, hfree, htorn₃⟩ := htorn₂.freeArray hw.arrays hslave hdb
      refine ⟨w₃, ?_, htorn₃.congr hslots hdbs⟩
      dsimp only
      rw [hdelete, ok_do, hfree]

/-- `Flush` deletes every pool and keeps every pointer. -/
theorem Tidy.flush (hw : w.Tidy) (hclear : ∀ s, ¬w.Stale s) :
    ∃ w', w.flush = .ok w' ∧ w'.inited = false ∧
      Torn w (fun _ => True) (fun _ => True) w' := by
  have hloop := foldlM_done (s := w) (l := List.finRange maxDbNum) (f := ManagerWorld.flushDb)
    (I := fun done v => Torn w (fun s => s.db ∈ done) (· ∈ done) v)
  obtain ⟨w', hflush, htorn⟩ := hloop (by
    intro done db rest v hrange hv
    apply hw.flushDb hclear _ hv
    intro hmem
    have hnodup : (done ++ db :: rest).Nodup := hrange ▸ List.nodup_finRange maxDbNum
    exact (List.nodup_append.mp hnodup).2.2 db hmem db (List.mem_cons_self ..) rfl)
    ((Torn.start w).congr (by simp) (by simp))
  have hall := htorn.congr (fun s => iff_true_intro (List.mem_finRange s.db))
    (fun db => iff_true_intro (List.mem_finRange db))
  refine ⟨{ w' with inited := false }, ?_, rfl, hall.config, hall.master, hall.slave, ?_,
    hall.deleted, hall.pools, hall.worlds, hall.arrays⟩
  · rw [ManagerWorld.flush, hflush, ok_do]
  · rw [← hall.slotPtr]
    funext s
    cases s <;> rfl

/-- Nothing in use would be lost if a pool were created for the slot. -/
def Vacant (w : ManagerWorld C) (s : Slot) : Prop := w.slotPtr s = none ∨ w.Stale s

theorem Tidy.vacant (hw : w.Tidy) (hvacant : w.Vacant s) :
    ∀ cell, w.poolAt s = some cell → cell.deleted = true := by
  intro cell hcell
  rcases hw.cases_slot s with ⟨hptr, _⟩ | ⟨found, hfound, hdeleted⟩ | ⟨ptr, found, rfl, hat⟩
  · rw [poolAt_none hptr] at hcell
    cases hcell
  · cases hcell.symm.trans hfound
    exact hdeleted
  · rcases hvacant with hnone | hstale
    · rw [hat.slotPtr] at hnone
      cases hnone
    · exact absurd hstale hat.not_stale

namespace Torn

theorem count {S : Slot → Prop} {F : Fin maxDbNum → Prop} (htorn : Torn w S F w') (s : Slot) :
    (w'.pools s).length = (w.pools s).length := by
  simpa using congrArg List.length (htorn.worlds s)

theorem tidy (htorn : Torn w (fun _ => True) (fun _ => True) w') (hw : w.Tidy)
    (hnone : w.slaveCnt = 0) : w'.Tidy := by
  have hslave : ∀ db gen, w'.slave db ≠ some gen := by
    intro db gen hgen
    rw [htorn.slave] at hgen
    have hpos := hw.filled db gen hgen
    omega
  refine ⟨?_, fun db gen hgen => absurd hgen (hslave db gen),
    fun db gen hgen => absurd hgen (hslave db gen), ?_⟩
  · rw [htorn.config]
    exact hw.slaves
  · intro s
    rw [htorn.slotPtr]
    exact (hw.slots s).bury (htorn.count s) (htorn.deleted s trivial)

/-- Deleting a pool changes nothing about what it has lent. -/
theorem lent {S : Slot → Prop} {F : Fin maxDbNum → Prop} (htorn : Torn w S F w') (conn : ConnPtr) :
    w'.Lent conn ↔ w.Lent conn := by
  have hblocks : ∀ v : ManagerWorld C, v.Lent conn ↔ ∃ world,
      ((v.pools conn.pool.slot).map (·.world))[conn.pool.gen]? = some world ∧
        conn.block ∈ world.lent.map (·.block) := by
    intro v
    rw [List.getElem?_map]
    constructor
    · rintro ⟨cell, hcell, hblock⟩
      exact ⟨cell.world, Option.map_eq_some_iff.mpr ⟨cell, hcell, rfl⟩, hblock⟩
    · rintro ⟨world, hworld, hblock⟩
      obtain ⟨cell, hcell, rfl⟩ := Option.map_eq_some_iff.mp hworld
      exact ⟨cell, hcell, hblock⟩
  rw [hblocks, hblocks, htorn.worlds]

/-- After a `Flush` no slot holds a pool in use. -/
theorem vacant (htorn : Torn w (fun _ => True) (fun _ => True) w') (hw : w.Tidy) (s : Slot) :
    w'.Vacant s := by
  have hslot := (hw.slots s).bury (htorn.count s) (htorn.deleted s trivial)
  rw [← htorn.slotPtr] at hslot
  have hdeleted := htorn.deleted s trivial
  generalize hptr : w'.slotPtr s = found at hslot
  generalize hcells : w'.pools s = cells at hslot hdeleted
  cases hslot with
  | empty => exact .inl hptr
  | last older cell _ _ =>
      right
      refine ⟨cell, ?_, hdeleted cell (by simp)⟩
      simp [poolAt, hptr, cellAt, hcells]

end Torn

/-- A second `delete` of a pool. -/
theorem Stale.destructor (hstale : w.Stale (.master 0)) :
    w.destructor = .error .doubleDelete := by
  obtain ⟨cell, hcell, hdeleted⟩ := hstale
  obtain ⟨ptr, hptr, hat⟩ := Option.bind_eq_some_iff.mp hcell
  have hmaster : w.master 0 = some ptr := hptr
  have hdelete : w.deletePool ptr = .error .doubleDelete := by
    simp [deletePool, hat, hdeleted]
  have hfirst : List.finRange maxDbNum = 0 :: (List.finRange 15).map Fin.succ :=
    List.finRange_succ
  rw [ManagerWorld.destructor, ManagerWorld.flush, hfirst, List.foldlM_cons,
    ManagerWorld.flushDb, hmaster]
  change ((w.deletePool ptr >>= _) >>= _) >>= _ = _
  rw [hdelete]
  rfl

/-- What is lent by no pool is lent by no deleted pool. -/
theorem AllReturned.settled (hreturned : w.AllReturned) : w.Settled := by
  intro s cell hcell _
  obtain ⟨gen, hgen⟩ := List.mem_iff_getElem?.mp hcell
  apply List.eq_nil_iff_forall_not_mem.mpr
  intro item hitem
  exact hreturned ⟨⟨s, gen⟩, item.block⟩ ⟨cell, hgen, List.mem_map_of_mem hitem⟩

/-! ### Whole runs -/

/-- Borrowers use and return what they hold, and everything before a `Flush`. -/
def ReturnsFirst (w : ManagerWorld C) : PublicCall D W → Prop
  | .doCommand conn _ _ | .done conn _ => w.Lent conn
  | .flush => w.AllReturned
  | _ => True

/-- Slaves are named, and not too many to be kept. -/
def NamesSlaves (slaveHosts : String) : Prop :=
  0 < (parseAddressVector slaveHosts).length ∧
    (parseAddressVector slaveHosts).length < maxSlaveCnt

/-- A call that stays clear of deleted pools, now and at the end, and of places
that are not there. An `Init` that gets past its host creates no second pool
beside one in use, and an `InitEx` keeps a slave; a `Flush` finds no pool but
that of `master_[0]`, the one pointer that `Init` replaces; no `Get` is for a
negative database; and nothing follows the pointer to a deleted pool. -/
def Careful (w : ManagerWorld C) : PublicCall D W → Prop
  | .init host _ _ _ _ =>
      w.inited = false → (parseAddressVector host).length = 1 → w.Vacant (.master defaultDb)
  | .initEx masterHost slaveHosts _ _ _ _ _ =>
      w.inited = false → (parseAddressVector masterHost).length = 1 →
        w.Vacant (.master defaultDb) ∧ NamesSlaves slaveHosts
  | .flush =>
      w.slaveCnt = 0 ∧ (∀ db, db ≠ defaultDb → w.master db = none) ∧
        ¬w.Stale (.master defaultDb)
  | .get db role index rand env => 0 ≤ db ∧
      ∀ s, (PublicCall.get db role index rand env).Reaches w.toManagerConfig s → ¬w.Stale s
  | call => ∀ s, call.Reaches w.toManagerConfig s → ¬w.Stale s

/-- Tidy, with no deleted pool in reach but that of `master_[0]`. -/
structure Orderly (w : ManagerWorld C) : Prop where
  tidy : w.Tidy
  settled : w.Settled
  clear : ∀ s, s ≠ .master 0 → ¬w.Stale s
  fresh : w.inited = false → w.slaveCnt = 0

theorem Orderly.new : ({} : ManagerWorld C).Orderly := by
  refine ⟨.new, ?_, ?_, fun _ => rfl⟩
  · intro s c hc
    cases hc
  · rintro s _ ⟨cell, hcell, _⟩
    cases s <;> cases hcell

theorem SetUp.orderly {S : Slot → Prop} (hsetup : SetUp w w' S) (hinited : w.inited = true)
    (hsettled : w.Settled) (hclear : ∀ s, ¬S s → ¬w.Stale s) : w'.Orderly := by
  refine ⟨hsetup.tidy, ?_, ?_, ?_⟩
  · exact fun s c hc hdeleted => hsettled s c (hsetup.deleted s c hc hdeleted) hdeleted
  · rintro s _ ⟨cell, hcell, hdeleted⟩
    by_cases hs : S s
    · obtain ⟨ptr, found, rfl, hat, _⟩ := hsetup.here s hs
      exact hat.not_stale ⟨cell, hcell, hdeleted⟩
    · rw [hsetup.others s hs] at hcell
      exact hclear s hs ⟨cell, hcell, hdeleted⟩
  · intro hfalse
    rw [hsetup.inited, hinited] at hfalse
    cases hfalse

theorem Orderly.all_clear (hw : w.Orderly) (hlive : ¬w.Stale (.master 0)) (s : Slot) :
    ¬w.Stale s := by
  by_cases hs : s = .master 0
  · rw [hs]
    exact hlive
  · exact hw.clear s hs

theorem Orderly.withInited (hw : w.Orderly) :
    ({ w with inited := true } : ManagerWorld C).Orderly := by
  refine ⟨hw.tidy.withInited, hw.settled, ?_, fun hfalse => by cases hfalse⟩
  rintro s hs ⟨cell, hcell, hdeleted⟩
  rw [poolAt_withInited] at hcell
  exact hw.clear s hs ⟨cell, hcell, hdeleted⟩

theorem Orderly.init (hw : w.Orderly) {host password : String} {timeoutMs : Int}
    {option : Option ConnectionPoolOption} {env : ProbeEnv D W}
    (hvacant : w.inited = false → (parseAddressVector host).length = 1 → w.Vacant (.master 0)) :
    Ensures Orderly (fun _ => False)
      (w.perform h (.init host password timeoutMs option env)) := by
  rw [perform]
  cases hinited : w.inited with
  | true =>
      rw [ManagerWorld.init, if_pos hinited]
      exact hw
  | false =>
      by_cases hhost : (parseAddressVector host).length = 1
      · obtain ⟨addr, haddr⟩ := List.length_eq_one_iff.mp hhost
        have hfree := hw.tidy.vacant (hvacant hinited hhost)
        obtain ⟨r, hinit, hsetup⟩ :=
          hw.tidy.init_through hinited haddr hfree h password timeoutMs option env
        rw [hinit]
        exact hsetup.orderly rfl hw.settled hw.clear
      · rw [init_bad_host hinited hhost]
        exact hw.withInited

theorem Orderly.initEx (hw : w.Orderly) {masterHost slaveHosts password : String}
    {timeoutMs : Int} {option : Option ConnectionPoolOption} {masterEnv slaveEnv : ProbeEnv D W}
    (hvacant : w.inited = false → (parseAddressVector masterHost).length = 1 →
      w.Vacant (.master 0) ∧ NamesSlaves slaveHosts) :
    Ensures Orderly (fun _ => False)
      (w.perform h
        (.initEx masterHost slaveHosts password timeoutMs option masterEnv slaveEnv)) := by
  rw [perform]
  cases hinited : w.inited with
  | true =>
      rw [ManagerWorld.initEx, if_pos hinited]
      exact hw
  | false =>
      have hnone := hw.fresh hinited
      by_cases hhost : (parseAddressVector masterHost).length = 1
      · obtain ⟨addr, haddr⟩ := List.length_eq_one_iff.mp hhost
        obtain ⟨hempty, hslaves⟩ := hvacant hinited hhost
        have hfree := hw.tidy.vacant hempty
        have hpos : 0 < (w.addSlaves (parseAddressVector slaveHosts)).slaveCnt := by
          unfold NamesSlaves at hslaves
          rw [addSlaves_slaveCnt, if_pos hslaves, List.length_append]
          exact Nat.lt_add_left _ hslaves.1
        obtain ⟨r, hinit, hsetup⟩ := hw.tidy.initEx_through hinited hnone haddr hpos hfree h
          password timeoutMs option masterEnv slaveEnv
        rw [hinit]
        have hconfigured := hw.tidy.configured addr password timeoutMs option
        obtain ⟨_, hptrs, hpools⟩ := hconfigured.addSlaves hnone (parseAddressVector slaveHosts)
        apply hsetup.orderly
        · rw [addSlaves_inited]
          rfl
        · intro s c hc
          rw [hpools] at hc
          exact hw.settled s c hc
        · rintro s hs ⟨cell, hcell, hdeleted⟩
          rw [hconfigured.poolAt_congr (congrFun hptrs s) (congrFun hpools s)] at hcell
          exact hw.clear s (fun heq => hs (.inl heq)) ⟨cell, hcell, hdeleted⟩
      · rw [initEx_bad_host hinited hhost]
        exact hw.withInited

theorem Orderly.flush (hw : w.Orderly) (hreturned : w.AllReturned) (hnone : w.slaveCnt = 0)
    (hmaster : ∀ db, db ≠ 0 → w.master db = none) (hlive : ¬w.Stale (.master 0)) :
    Ensures Orderly (fun _ => False) w.flush := by
  have hclear := hw.all_clear hlive
  obtain ⟨w', hflush, hinited, htorn⟩ := hw.tidy.flush hclear
  have hnext : w'.AllReturned := fun conn hlent => hreturned conn ((htorn.lent conn).mp hlent)
  rw [hflush]
  refine ⟨htorn.tidy hw.tidy hnone, hnext.settled, ?_, ?_⟩
  · rintro s hs ⟨cell, hcell, _⟩
    have hptr : w'.slotPtr s = none := by
      rw [htorn.slotPtr]
      cases s with
      | master db => exact hmaster db fun heq => hs (by rw [heq])
      | slave db index => exact hw.tidy.no_slave hnone db index
    rw [poolAt_none hptr] at hcell
    cases hcell
  · intro _
    rw [htorn.config]
    exact hnone

theorem Orderly.step {call : PublicCall D W} (hw : w.Orderly) (hreturned : w.ReturnsFirst call)
    (hcareful : w.Careful call) : Ensures Orderly (fun _ => False) (w.perform h call) := by
  have huses : call.Uses → w.Admitted call →
      (∀ s, call.Reaches w.toManagerConfig s → ¬w.Stale s) →
      Ensures Orderly (fun _ => False) (w.perform h call) := by
    intro huses hadmitted hclear
    refine (hw.tidy.uses hw.settled huses hclear).mono ?_ fun _ hnot => hnot hadmitted
    intro w' honward
    refine ⟨honward.tidy, honward.settled hw.settled,
      fun s hs hstale => hw.clear s hs (honward.stale s hstale), ?_⟩
    rw [honward.inited, honward.config]
    exact hw.fresh
  cases call with
  | init => exact hw.init hcareful
  | initEx => exact hw.initEx hcareful
  | flush => exact hw.flush hreturned hcareful.1 hcareful.2.1 hcareful.2.2
  | get => exact huses trivial hcareful.1 hcareful.2
  | doCommand => exact huses trivial hreturned hcareful
  | done => exact huses trivial hreturned hcareful
  | activeConnectionCount => exact huses trivial trivial hcareful
  | connectionInPool => exact huses trivial trivial hcareful
  | connectionInUse => exact huses trivial trivial hcareful

/-- When every call is careful, all of them go through, so nothing deleted is
ever reached, and the destructor deletes each pool that was created and is not
deleted yet. -/
theorem pools_deleted_once {calls : List (PublicCall D W)}
    (hreturned : Along (perform h) ReturnsFirst ({} : ManagerWorld C) calls)
    (hcareful : Along (perform h) Careful ({} : ManagerWorld C) calls) :
    ∃ w, run (perform h) ({} : ManagerWorld C) calls = .ok w ∧
      (¬w.Stale (.master 0) →
        ∃ w', w.destructor = .ok w' ∧ ∀ s, ∀ cell ∈ w'.pools s, cell.deleted = true) := by
  have hends := Ensures.run (fun s call hs hcall => Orderly.step hs hcall.1 hcall.2)
    Orderly.new (along_and hreturned hcareful)
  obtain ⟨w, hrun, hw⟩ := hends.succeeds
  refine ⟨w, hrun, fun hlive => ?_⟩
  obtain ⟨w', hflush, _, htorn⟩ := hw.tidy.flush (hw.all_clear hlive)
  exact ⟨w', hflush, fun s => htorn.deleted s trivial⟩

/-- `Init` of the local server under given options. -/
def initLocal (option : Option ConnectionPoolOption) : PublicCall Unit Bool :=
  .init "localhost:6379" "" 200 option ⟨localGet, none⟩

/-- It goes through where nothing in use is overwritten. -/
theorem Tidy.initLocal_setUp {w w' : ManagerWorld Int} (hw : w.Tidy) (hinited : w.inited = false)
    (hvacant : w.Vacant (.master 0)) {option : Option ConnectionPoolOption}
    (hinit : perform ConnectionWorld.scriptedHiredis w (initLocal option) = .ok w') :
    SetUp (w.configured ⟨"localhost", "localhost:6379", 6379⟩ "" 200 option) w'
      (· = .master 0) := by
  rw [initLocal, perform] at hinit
  obtain ⟨r, hr, rfl⟩ := map_ok.mp hinit
  obtain ⟨r', hr', hsetup⟩ := hw.init_through hinited parseAddressVector_localhost
    (hw.vacant hvacant) ConnectionWorld.scriptedHiredis "" 200 option ⟨localGet, none⟩
  cases hr.symm.trans hr'
  exact hsetup

/-- The pool that `Init` leaves in `master_[0]` is in use. -/
theorem Tidy.initLocal_live {w w' : ManagerWorld Int} (hw : w.Tidy) (hinited : w.inited = false)
    (hvacant : w.Vacant (.master 0)) {option : Option ConnectionPoolOption}
    (hinit : perform ConnectionWorld.scriptedHiredis w (initLocal option) = .ok w') :
    ¬w'.Stale (.master 0) := by
  obtain ⟨ptr, cell, hslot, hat, _⟩ := (hw.initLocal_setUp hinited hvacant hinit).here _ rfl
  rw [← hslot]
  exact hat.not_stale

/-- What a first `Init` leaves can be flushed. -/
theorem initLocal_done {option : Option ConnectionPoolOption} {w : ManagerWorld Int}
    (hinit : perform ConnectionWorld.scriptedHiredis {} (initLocal option) = .ok w) :
    w.Orderly ∧ w.AllReturned ∧ w.slaveCnt = 0 ∧ (∀ db, db ≠ 0 → w.master db = none) ∧
      ¬w.Stale (.master 0) ∧ ∃ ptr, w.slotPtr (.master 0) = some ptr := by
  have hsetup := Tidy.new.initLocal_setUp rfl (.inl rfl) hinit
  obtain ⟨ptr, cell, hslot, hat, _⟩ := hsetup.here _ rfl
  refine ⟨hsetup.orderly rfl Orderly.new.settled Orderly.new.clear, ?_, ?_, ?_,
    Tidy.new.initLocal_live rfl (.inl rfl) hinit, ptr, ?_⟩
  · rw [initLocal, perform] at hinit
    obtain ⟨r, hr, rfl⟩ := map_ok.mp hinit
    exact fun conn hlent => ((init_started hr).lent conn).mp hlent
  · rw [hsetup.config]
    rfl
  · intro db hdb
    exact hsetup.slotPtr (.master db) fun heq => hdb (Slot.master.inj heq)
  · rw [← hslot]
    exact hat.slotPtr

/-- The connection that a first `Get` of database 0 creates. -/
def firstConn : ConnPtr := ⟨⟨.master defaultDb, 0⟩, 0⟩

def borrowAndReturn : List (PublicCall Unit Bool) :=
  [initLocal none, .get 0 .master 0 0 localGet, .done firstConn none]

/-- A first `Init`, and a connection borrowed and returned. -/
theorem borrowAndReturn_run :
    ∃ w₁ w₂ w₃ : ManagerWorld Int,
      perform ConnectionWorld.scriptedHiredis {} (initLocal none) = .ok w₁ ∧
      w₁.get ConnectionWorld.scriptedHiredis 0 .master 0 0 localGet = .ok (some firstConn, w₂) ∧
      perform ConnectionWorld.scriptedHiredis w₂ (.done firstConn none) = .ok w₃ ∧
      w₃.slaveCnt = 0 ∧ ∀ db, db ≠ 0 → w₃.master db = none := by
  simp only [initLocal, perform, init, parseAddressVector_localhost]
  refine ⟨_, _, _, rfl, rfl, rfl, rfl, ?_⟩
  decide

/-- Its calls are careful, and nothing stays lent. -/
theorem borrowAndReturn_careful :
    ∃ w : ManagerWorld Int,
      run (perform ConnectionWorld.scriptedHiredis) {} borrowAndReturn = .ok w ∧
      Along (perform ConnectionWorld.scriptedHiredis) ReturnsFirst {} borrowAndReturn ∧
      Along (perform ConnectionWorld.scriptedHiredis) Careful {} borrowAndReturn ∧
      w.Orderly ∧ w.Intact ∧ w.AllReturned ∧
      w.slaveCnt = 0 ∧ ∀ db, db ≠ 0 → w.master db = none := by
  obtain ⟨w₁, w₂, w₃, hinit, hget, hdone, hnone, hmaster⟩ := borrowAndReturn_run
  have hperform : perform ConnectionWorld.scriptedHiredis w₁ (.get 0 .master 0 0 localGet) =
      .ok w₂ := by
    rw [perform, hget]
    rfl
  obtain ⟨hw₁, hreturned₁, _, _, hlive₁, _⟩ := initLocal_done hinit
  -- what is lent meanwhile
  have hintact₁ : w₁.Intact := by
    rw [initLocal, perform] at hinit
    obtain ⟨r, hr, rfl⟩ := map_ok.mp hinit
    exact (init_started hr).intact
  obtain ⟨_, w₂', hget', hintact₂, _, hlent₂⟩ :=
    hintact₁.get_lent ConnectionWorld.scriptedHiredis 0 .master 0 0 localGet
  cases hget.symm.trans hget'
  have hlent : w₂.Lent firstConn := (hlent₂ firstConn).mpr (.inr rfl)
  obtain ⟨w₃', hdone', hintact₃, hlent₃⟩ := hintact₂.done_lent hlent none
  cases hdone.symm.trans hdone'
  have hreturned₃ : w₃.AllReturned := by
    intro conn hconn
    obtain ⟨hconn₂, hne⟩ := (hlent₃ conn).mp hconn
    rcases (hlent₂ conn).mp hconn₂ with hconn₁ | hfirst
    · exact hreturned₁ conn hconn₁
    · exact hne (Option.some.inj hfirst).symm
  -- each call is careful
  have hget₁ : w₁.ReturnsFirst (PublicCall.get (W := Bool) 0 .master 0 0 localGet) := trivial
  have hgetCareful : w₁.Careful (PublicCall.get (W := Bool) 0 .master 0 0 localGet) :=
    ⟨le_rfl, fun s _ => hw₁.all_clear hlive₁ s⟩
  have hdone₂ : w₂.ReturnsFirst (.done firstConn none : PublicCall Unit Bool) := hlent
  have hdoneCareful : w₂.Careful (.done firstConn none : PublicCall Unit Bool) :=
    fun _ hreach => hreach.elim
  have hw₂ : w₂.Orderly := (hw₁.step hget₁ hgetCareful).ok hperform
  have hw₃ : w₃.Orderly := (hw₂.step hdone₂ hdoneCareful).ok hdone
  refine ⟨w₃, ?_, ?_, ?_, hw₃, hintact₃, hreturned₃, hnone, hmaster⟩
  · exact run_cons_ok.mpr ⟨w₁, hinit, run_cons_ok.mpr ⟨w₂, hperform,
      run_cons_ok.mpr ⟨w₃, hdone, rfl⟩⟩⟩
  · exact along_cons hinit trivial (along_cons hperform hget₁
      (along_cons hdone hdone₂ (along_nil _ _ _)))
  · exact along_cons hinit (fun _ _ => .inl rfl) (along_cons hperform hgetCareful
      (along_cons hdone hdoneCareful (along_nil _ _ _)))

/-- Two generations of `master_[0]`, one of them used. -/
theorem pools_deleted_once_of_reinit :
    ∃ w w' : ManagerWorld Int,
      run (perform ConnectionWorld.scriptedHiredis) {}
        (borrowAndReturn ++ [.connectionInUse .master, .flush, initLocal none]) = .ok w ∧
      w.destructor = .ok w' ∧ ∀ s, ∀ cell ∈ w'.pools s, cell.deleted = true := by
  obtain ⟨w₃, hrun₃, hborrowed, hcareful, hw₃, hintact₃, hreturned₃, hnone, hmaster⟩ :=
    borrowAndReturn_careful
  have hcount : perform ConnectionWorld.scriptedHiredis w₃ (.connectionInUse .master) =
      .ok w₃ := by
    rw [perform, hintact₃.connectionInUse_zero hreturned₃]
    rfl
  have hclear₃ : ∀ s, ¬w₃.Stale s := by
    rintro s ⟨cell, hcell, hdeleted⟩
    cases (hintact₃.full hcell).2.2.live.symm.trans hdeleted
  obtain ⟨w₄, htear, hinited, htorn⟩ := hw₃.tidy.flush hclear₃
  have hflush : perform ConnectionWorld.scriptedHiredis w₃ .flush = .ok w₄ := htear
  have hvacant : w₄.Vacant (.master 0) := htorn.vacant hw₃.tidy _
  have hreturned₄ : Along (perform ConnectionWorld.scriptedHiredis) ReturnsFirst w₄
      [initLocal none] := ⟨trivial, fun w _ => along_nil _ _ w⟩
  have hcareful₄ : Along (perform ConnectionWorld.scriptedHiredis) Careful w₄
      [initLocal none] := ⟨fun _ _ => hvacant, fun w _ => along_nil _ _ w⟩
  obtain ⟨w, hrun, hend⟩ := pools_deleted_once
    (along_append hrun₃ hborrowed (along_cons hcount trivial
      (along_cons hflush hreturned₃ hreturned₄)))
    (along_append hrun₃ hcareful (along_cons hcount (fun s _ => hclear₃ s)
      (along_cons hflush ⟨hnone, hmaster, hclear₃ _⟩ hcareful₄)))
  -- and the second `Init` leaves a pool in use
  have hlast : perform ConnectionWorld.scriptedHiredis w₄ (initLocal none) = .ok w := by
    obtain ⟨w₃', hfirst, hrest⟩ := run_append_ok.mp hrun
    cases hfirst.symm.trans hrun₃
    simpa only [run_cons_ok, run_nil, hcount, hflush, Except.ok.injEq, exists_eq_left',
      exists_eq_right] using hrest
  have hlive := (htorn.tidy hw₃.tidy hnone).initLocal_live hinited hvacant hlast
  obtain ⟨w', hdestructor, hdeleted⟩ := hend hlive
  exact ⟨w, w', hrun, hdestructor, hdeleted⟩

/-- `Init`, then `Flush`, then the destructor: a second `delete`. -/
theorem flush_then_destructor :
    ∃ w : ManagerWorld Int,
      run (perform ConnectionWorld.scriptedHiredis) {} [initLocal none, .flush] = .ok w ∧
      Along (perform ConnectionWorld.scriptedHiredis) ReturnsFirst ({} : ManagerWorld Int)
        [initLocal none, .flush] ∧
      w.AllReturned ∧ w.destructor = .error .doubleDelete := by
  have hinit : ∃ w, perform ConnectionWorld.scriptedHiredis {} (initLocal none) = .ok w := by
    simp only [initLocal, perform, init, parseAddressVector_localhost]
    exact ⟨_, rfl⟩
  obtain ⟨w₁, hinit⟩ := hinit
  obtain ⟨hw, hreturned, _, _, hlive, ptr, hptr⟩ := initLocal_done hinit
  obtain ⟨w₂, hflush, _, htorn⟩ := hw.tidy.flush (hw.all_clear hlive)
  refine ⟨w₂, ?_, ⟨trivial, fun w hw' => ⟨?_, fun _ _ => trivial⟩⟩, ?_, ?_⟩
  · rw [run_cons_ok]
    exact ⟨w₁, hinit, run_cons_ok.mpr ⟨w₂, hflush, rfl⟩⟩
  · exact (initLocal_done hw').2.1
  · exact fun conn hlent => hreturned conn ((htorn.lent conn).mp hlent)
  · apply Stale.destructor
    apply (htorn.vacant hw.tidy (.master 0)).resolve_left
    rw [htorn.slotPtr, hptr]
    simp

end ManagerWorld

end CloRedis
