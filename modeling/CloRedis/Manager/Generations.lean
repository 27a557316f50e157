import CloRedis.Library.Outcome
import CloRedis.Manager.Requests

/-!
The manager over several generations of pools. `Flush` deletes the pools and
keeps the pointers to them, and `Init` creates a pool over what the slot held.
So the pointer of a slot may lead to a deleted pool, and of the pools created
for a slot the last one alone may be in use.
-/

namespace CloRedis

open Library

variable {C D W : Type}

/-- A slot never filled, or the pointer to the last of its pools. -/
inductive SlotState (s : Slot) : Option PoolPtr → List (PoolCell C) → Prop where
  | empty : SlotState s none []
  | last (older : List (PoolCell C)) (cell : PoolCell C) : (∀ c ∈ older, c.deleted = true) →
      cell.deleted = true ∨ cell.Intact ⟨s, older.length⟩ →
      SlotState s (some ⟨s, older.length⟩) (older ++ [cell])

namespace ManagerWorld

variable {w w' : ManagerWorld C} {s : Slot} {ptr : PoolPtr} {cell cell' : PoolCell C}

/-- The manager between any two calls. -/
structure Tidy (w : ManagerWorld C) : Prop where
  slaves : w.slaveCnt = w.slaveAddr.length
  arrays : w.ArraysLive
  filled : ∀ db gen, w.slave db = some gen → 0 < w.slaveCnt
  slots : ∀ s, SlotState s (w.slotPtr s) (w.pools s)

/-- The slot holds a pointer to a deleted pool. -/
def Stale (w : ManagerWorld C) (s : Slot) : Prop :=
  ∃ cell, w.poolAt s = some cell ∧ cell.deleted = true

/-- A slot points to a pool in use. -/
structure Serving (w : ManagerWorld C) (ptr : PoolPtr) (cell : PoolCell C) : Prop where
  slotPtr : w.slotPtr ptr.slot = some ptr
  cellAt : w.cellAt ptr = some cell
  intact : cell.Intact ptr

theorem Serving.poolAt (hat : w.Serving ptr cell) : w.poolAt ptr.slot = some cell := by
  rw [ManagerWorld.poolAt, hat.slotPtr]
  exact hat.cellAt

theorem Serving.not_stale (hat : w.Serving ptr cell) : ¬w.Stale ptr.slot := by
  rintro ⟨found, hfound, hdeleted⟩
  cases hat.poolAt.symm.trans hfound
  rw [hat.intact.live] at hdeleted
  cases hdeleted

theorem Tidy.cell_of_ptr (hw : w.Tidy) (hcell : w.cellAt ptr = some cell) :
    cell.deleted = true ∨ w.Serving ptr cell := by
  have hslot := hw.slots ptr.slot
  generalize hptr : w.slotPtr ptr.slot = found at hslot
  generalize hcells : w.pools ptr.slot = cells at hslot
  have hcell' := hcell
  rw [ManagerWorld.cellAt, hcells] at hcell'
  cases hslot with
  | empty => simp at hcell'
  | last older newest hdead hnewest =>
      rcases lt_trichotomy ptr.gen older.length with hlt | heq | hgt
      · rw [List.getElem?_append_left hlt] at hcell'
        exact .inl (hdead cell (List.mem_of_getElem? hcell'))
      · rw [heq, List.getElem?_concat_length, Option.some.injEq] at hcell'
        subst hcell'
        have hself : ptr = ⟨ptr.slot, older.length⟩ := by rw [← heq]
        rw [← hself] at hptr hnewest
        exact hnewest.imp id fun hintact => ⟨hptr, hcell, hintact⟩
      · rw [List.getElem?_eq_none (by simp; omega)] at hcell'
        cases hcell'

theorem Tidy.slot_of_ptr (hw : w.Tidy) (hptr : w.slotPtr s = some ptr) :
    ptr.slot = s ∧ ptr.gen + 1 = (w.pools s).length := by
  have hslot := hw.slots s
  rw [hptr] at hslot
  generalize w.pools s = cells at hslot
  cases hslot with
  | last older newest hdead hnewest => exact ⟨rfl, by simp⟩

/-- The slot was never filled, it is stale, or its pool is in use. -/
theorem Tidy.cases_slot (hw : w.Tidy) (s : Slot) :
    w.slotPtr s = none ∧ w.pools s = [] ∨ w.Stale s ∨
      ∃ ptr cell, ptr.slot = s ∧ w.Serving ptr cell := by
  have hslot := hw.slots s
  generalize hptr : w.slotPtr s = found at hslot
  generalize hcells : w.pools s = cells at hslot
  cases hslot with
  | empty => exact .inl ⟨rfl, rfl⟩
  | last older newest hdead hnewest =>
      have hcell : w.cellAt ⟨s, older.length⟩ = some newest := by
        rw [ManagerWorld.cellAt, hcells, List.getElem?_concat_length]
      rcases hnewest with hdeleted | hintact
      · right; left
        refine ⟨newest, ?_, hdeleted⟩
        rw [ManagerWorld.poolAt, hptr]
        exact hcell
      · exact .inr (.inr ⟨⟨s, older.length⟩, newest, rfl, hptr, hcell, hintact⟩)

/-! ### Changing the pool of one slot -/

/-- One slot has come to serve a pool; the others are as they were. -/
structure PoolChange (w w' : ManagerWorld C) (ptr : PoolPtr) (cell : PoolCell C) : Prop where
  tidy : w'.Tidy
  config : w'.toManagerConfig = w.toManagerConfig
  inited : w'.inited = w.inited
  here : w'.Serving ptr cell
  slotPtr : ∀ k, k ≠ ptr.slot → w'.slotPtr k = w.slotPtr k
  others : ∀ k, k ≠ ptr.slot → w'.poolAt k = w.poolAt k
  deleted : ∀ s, ∀ c ∈ w'.pools s, c.deleted = true → c ∈ w.pools s

/-- A slot whose pointer and pools are unchanged finds the same pool. -/
theorem Tidy.poolAt_congr (hw : w.Tidy) (hptr : w'.slotPtr s = w.slotPtr s)
    (hpools : w'.pools s = w.pools s) : w'.poolAt s = w.poolAt s := by
  unfold ManagerWorld.poolAt
  rw [hptr]
  cases hfound : w.slotPtr s with
  | none => rfl
  | some ptr =>
      obtain ⟨hslot, _⟩ := hw.slot_of_ptr hfound
      simp only [Option.bind_some, ManagerWorld.cellAt, hslot, hpools]

theorem PoolChange.trans {w₁ w₂ : ManagerWorld C} {first second : PoolCell C}
    (h₁ : PoolChange w w₁ ptr first) (h₂ : PoolChange w₁ w₂ ptr second) :
    PoolChange w w₂ ptr second where
  tidy := h₂.tidy
  config := h₂.config.trans h₁.config
  inited := h₂.inited.trans h₁.inited
  here := h₂.here
  slotPtr k hk := (h₂.slotPtr k hk).trans (h₁.slotPtr k hk)
  others k hk := (h₂.others k hk).trans (h₁.others k hk)
  deleted s c hc hdeleted := h₁.deleted s c (h₂.deleted s c hc hdeleted) hdeleted

theorem Tidy.setPool (hw : w.Tidy) (hat : w.Serving ptr cell) (hcell' : cell'.Intact ptr) :
    PoolChange w (w.setPool ptr cell') ptr cell' := by
  have hptrs := slotPtr_setPool (w := w) ptr cell'
  obtain ⟨hbound, _⟩ := List.getElem?_eq_some_iff.mp hat.cellAt
  have hpools : ∀ k, k ≠ ptr.slot → (w.setPool ptr cell').pools k = w.pools k := by
    intro k hk
    simp [ManagerWorld.setPool, Function.update_of_ne hk]
  have hslots : ∀ k, SlotState k (w.slotPtr k) ((w.setPool ptr cell').pools k) := by
    intro k
    by_cases hk : k = ptr.slot
    · subst hk
      have hslot := hw.slots ptr.slot
      have hcell := hat.cellAt
      rw [hat.slotPtr] at hslot ⊢
      simp only [ManagerWorld.setPool, Function.update_self]
      generalize w.pools ptr.slot = cells at hslot
      generalize hfound : some ptr = found at hslot
      cases hslot with
      | empty => cases hfound
      | last older newest hdead hnewest =>
          have hgen : ptr.gen = older.length := congrArg PoolPtr.gen (Option.some.inj hfound)
          have hself := Option.some.inj hfound
          rw [hself] at hcell'
          rw [hgen, List.set_append_right _ _ le_rfl, Nat.sub_self, List.set_cons_zero]
          exact .last older cell' hdead (.inr hcell')
    · rw [hpools k hk]
      exact hw.slots k
  refine ⟨⟨hw.slaves, hw.arrays, hw.filled, ?_⟩, rfl, rfl, ⟨?_, ?_, hcell'⟩, ?_, ?_, ?_⟩
  · intro k
    rw [hptrs]
    exact hslots k
  · rw [hptrs]
    exact hat.slotPtr
  · simp [ManagerWorld.cellAt, ManagerWorld.setPool, hbound]
  · intro k _
    rw [hptrs]
  · intro k hk
    exact hw.poolAt_congr (congrFun hptrs k) (hpools k hk)
  · intro k c hc hdeleted
    by_cases hk : k = ptr.slot
    · subst hk
      simp only [ManagerWorld.setPool, Function.update_self] at hc
      rcases List.mem_or_eq_of_mem_set hc with hold | rfl
      · exact hold
      · rw [hcell'.live] at hdeleted
        cases hdeleted
    · rwa [hpools k hk] at hc

/-- A pool is created over an empty slot or a stale pointer. -/
theorem Tidy.create (hw : w.Tidy) (hs : w.HasSlot s)
    (hfree : ∀ cell, w.poolAt s = some cell → cell.deleted = true) :
    ∃ w', w.createPool s = .ok w' ∧
      PoolChange w w' ⟨s, (w.pools s).length⟩ (w.freshPool s) := by
  obtain ⟨w', hcreate, hcreated⟩ := create_slot hw.arrays hw.slaves hs
  have hintact : (w.freshPool s : PoolCell C).Intact ⟨s, (w.pools s).length⟩ :=
    ManagerConfig.freshPool_intact _ _ _
  have hptrs : ∀ k, k ≠ s → w'.slotPtr k = w.slotPtr k := by
    intro k hk
    rw [hcreated.slotPtr, Function.update_of_ne hk]
  have hpools : ∀ k, k ≠ s → w'.pools k = w.pools k := by
    intro k hk
    rw [hcreated.pools, Function.update_of_ne hk]
  have hdead : ∀ c ∈ w.pools s, c.deleted = true := by
    intro c hc
    have hslot := hw.slots s
    generalize hptr : w.slotPtr s = found at hslot
    generalize hcells : w.pools s = cells at hslot hc
    cases hslot with
    | empty => cases hc
    | last older newest holder hnewest =>
        rcases List.mem_append.mp hc with hold | hlast
        · exact holder c hold
        · cases List.mem_singleton.mp hlast
          apply hfree c
          simp [ManagerWorld.poolAt, hptr, ManagerWorld.cellAt, hcells]
  refine ⟨w', hcreate, ⟨?_, hcreated.arrays, ?_, ?_⟩, hcreated.config, hcreated.inited,
    ⟨?_, ?_, hintact⟩, hptrs, ?_, ?_⟩
  · rw [hcreated.config]
    exact hw.slaves
  · intro db gen hgen
    rw [hcreated.config]
    rcases hcreated.slave db gen hgen with hold | ⟨index, rfl⟩
    · exact hw.filled db gen hold
    · exact lt_of_le_of_lt (Nat.zero_le _) hs
  · intro k
    by_cases hk : k = s
    · subst hk
      rw [hcreated.slotPtr, hcreated.pools, Function.update_self, Function.update_self]
      exact .last _ _ hdead (.inr hintact)
    · rw [hptrs k hk, hpools k hk]
      exact hw.slots k
  · rw [hcreated.slotPtr, Function.update_self]
  · rw [ManagerWorld.cellAt, hcreated.pools, Function.update_self, List.getElem?_concat_length]
  · intro k hk
    exact hw.poolAt_congr (hptrs k hk) (hpools k hk)
  · intro k c hc hdeleted
    by_cases hk : k = s
    · subst hk
      rw [hcreated.pools, Function.update_self] at hc
      rcases List.mem_append.mp hc with hold | hnew
      · exact hold
      · cases List.mem_singleton.mp hnew
        rw [hintact.live] at hdeleted
        cases hdeleted
    · rwa [hpools k hk] at hc

/-! ### The calls -/

theorem Serving.livePool (hat : w.Serving ptr cell) : w.livePool ptr = .ok cell := by
  simp [ManagerWorld.livePool, hat.cellAt, hat.intact.live]

theorem Serving.poolGet (hat : w.Serving ptr cell) (h : Hiredis C D W) (env : GetEnv D W) :
    w.poolGet h ptr env =
      .ok ((cell.get h ptr env).1.map (ConnPtr.mk ptr), w.setPool ptr (cell.get h ptr env).2) := by
  rw [ManagerWorld.poolGet, hat.livePool]
  rfl

/-- `Get` on a slot that is not stale. -/
theorem Tidy.getSlot (hw : w.Tidy) (hs : w.HasSlot s) (hstale : ¬w.Stale s) (h : Hiredis C D W)
    (env : GetEnv D W) :
    ∃ w' ptr, ptr.slot = s ∧
      w.getSlot h s env = .ok (((w.poolFor s).get h ptr env).1.map (ConnPtr.mk ptr), w') ∧
      PoolChange w w' ptr ((w.poolFor s).get h ptr env).2 := by
  have hread := hw.arrays.readSlot hs
  unfold ManagerWorld.getSlot
  rw [hread, ok_do]
  rcases hw.cases_slot s with ⟨hptr, _⟩ | hstale' | ⟨ptr, cell, rfl, hat⟩
  · have hnone := poolAt_none hptr
    have hfor : w.poolFor s = w.freshPool s := by rw [poolFor, hnone]; rfl
    obtain ⟨w₁, hcreate, hchange⟩ := hw.create hs (by simp [hnone])
    have hs₁ : w₁.HasSlot s := by
      rw [hchange.config]
      exact hs
    have hread₁ := hchange.tidy.arrays.readSlot hs₁
    have hptr₁ := hchange.here.slotPtr
    dsimp only at hptr₁
    rw [hptr₁] at hread₁
    have hintact := hchange.here.intact.get h env
    have hchange₂ := hchange.trans (hchange.tidy.setPool hchange.here hintact)
    rw [hfor, hptr]
    refine ⟨_, _, rfl, ?_, hchange₂⟩
    dsimp only
    rw [hcreate, ok_do, hread₁, ok_do]
    exact hchange.here.poolGet h env
  · exact absurd hstale' hstale
  · have hfor : w.poolFor ptr.slot = cell := by rw [poolFor, hat.poolAt]; rfl
    rw [hfor, hat.slotPtr]
    exact ⟨_, ptr, rfl, hat.poolGet h env, hw.setPool hat (hat.intact.get h env)⟩

theorem Serving.done (hat : w.Serving ptr cell) (block : Block) (now : Option Timeval) :
    w.done ⟨ptr, block⟩ now = (cell.done block now).map (w.setPool ptr) := by
  cases htake : takeFirst (isBlock block) cell.world.lent with
  | none => simp [ManagerWorld.done, PoolCell.done, hat.cellAt, htake, Except.map]
  | some r =>
      obtain ⟨item, rest⟩ := r
      have hback : item.object.pool = some ptr :=
        hat.intact.back item (.inr ((takeFirst_perm htake).symm.subset (List.mem_cons_self ..)))
      have hlive : (w.setPool ptr (cell.withLent rest)).livePool ptr =
          .ok (cell.withLent rest) := by
        obtain ⟨hbound, _⟩ := List.getElem?_eq_some_iff.mp hat.cellAt
        have hdeleted : (cell.withLent rest).deleted = false := hat.intact.live
        simp [ManagerWorld.livePool, ManagerWorld.cellAt, ManagerWorld.setPool, hbound, hdeleted]
      simp only [ManagerWorld.done, PoolCell.done, hat.cellAt, htake, hback, hlive, ok_do,
        Except.map, setPool_setPool]

/-- What was deleted had nothing out. -/
def Settled (w : ManagerWorld C) : Prop :=
  ∀ s, ∀ c ∈ w.pools s, c.deleted = true → c.world.lent = []

theorem Settled.cellAt (hsettled : w.Settled) (hcell : w.cellAt ptr = some cell)
    (hdeleted : cell.deleted = true) : cell.world.lent = [] :=
  hsettled ptr.slot cell (List.mem_of_getElem? hcell) hdeleted

theorem Tidy.done_atPool (hw : w.Tidy) (hsettled : w.Settled) (conn : ConnPtr)
    (now : Option Timeval) :
    w.done conn now = w.atPool conn fun cell => cell.done conn.block now := by
  cases hcell : w.cellAt conn.pool with
  | none => simp [ManagerWorld.done, atPool, hcell]
  | some cell =>
      rw [atPool, hcell]
      rcases hw.cell_of_ptr hcell with hdeleted | hat
      · have hnone := hsettled.cellAt hcell hdeleted
        simp [ManagerWorld.done, PoolCell.done, hcell, hnone, takeFirst, Except.map]
      · exact hat.done conn.block now

end ManagerWorld

/-- The slots whose pools a call looks for. -/
def PublicCall.Reaches (cfg : ManagerConfig) : PublicCall D W → Slot → Prop
  | .get db role index rand _, s =>
      ∃ i : Fin maxDbNum, (i.val : Int) = db ∧ s = cfg.route i role index rand
  | .activeConnectionCount role, s | .connectionInPool role, s | .connectionInUse role, s =>
      s.role = role
  | _, _ => False

namespace ManagerWorld

variable {w w' : ManagerWorld C} {s : Slot} {ptr : PoolPtr} {cell cell' : PoolCell C}
variable {h : Hiredis C D W}

/-- What a use asks of its caller: a database that is not negative, or a
connection that is lent. -/
def Admitted (w : ManagerWorld C) : PublicCall D W → Prop
  | .get db _ _ _ _ => 0 ≤ db
  | .doCommand conn _ _ | .done conn _ => w.Lent conn
  | _ => True

/-- Between two calls again, with no more stale slots, and set up as before. -/
structure Onward (w w' : ManagerWorld C) : Prop where
  tidy : w'.Tidy
  stale : ∀ s, w'.Stale s → w.Stale s
  config : w'.toManagerConfig = w.toManagerConfig
  inited : w'.inited = w.inited
  deleted : ∀ s, ∀ c ∈ w'.pools s, c.deleted = true → c ∈ w.pools s

theorem Onward.refl (hw : w.Tidy) : Onward w w :=
  ⟨hw, fun _ hs => hs, rfl, rfl, fun _ _ hc _ => hc⟩

theorem Onward.settled (honward : Onward w w') (hsettled : w.Settled) : w'.Settled :=
  fun s c hc hdeleted => hsettled s c (honward.deleted s c hc hdeleted) hdeleted

theorem PoolChange.onward (hchange : PoolChange w w' ptr cell) : Onward w w' := by
  refine ⟨hchange.tidy, ?_, hchange.config, hchange.inited, hchange.deleted⟩
  rintro s ⟨found, hfound, hdeleted⟩
  by_cases hs : s = ptr.slot
  · subst hs
    exact absurd ⟨found, hfound, hdeleted⟩ hchange.here.not_stale
  · rw [hchange.others s hs] at hfound
    exact ⟨found, hfound, hdeleted⟩

theorem Tidy.atPool_onward (hw : w.Tidy) (hsettled : w.Settled) {conn : ConnPtr}
    {f : PoolCell C → Except Fault (PoolCell C)}
    (hnone : ∀ cell, conn.block ∉ cell.blocks → f cell = .error .notLent)
    (hlent : ∀ ptr cell, cell.Intact ptr → conn.block ∈ cell.blocks →
      ∃ cell', f cell = .ok cell' ∧ cell'.Intact ptr) :
    Ensures (Onward w) (fun _ => ¬w.Lent conn) (w.atPool conn f) := by
  unfold ManagerWorld.atPool
  cases hcell : w.cellAt conn.pool with
  | none =>
      rintro ⟨cell, hcell', _⟩
      cases hcell.symm.trans hcell'
  | some cell =>
      dsimp only
      by_cases hblock : conn.block ∈ cell.blocks
      · rcases hw.cell_of_ptr hcell with hdeleted | hat
        · rw [PoolCell.blocks, hsettled.cellAt hcell hdeleted] at hblock
          cases hblock
        · obtain ⟨cell', hf, hintact⟩ := hlent _ cell hat.intact hblock
          rw [hf]
          exact (hw.setPool hat hintact).onward
      · rw [hnone cell hblock]
        rintro ⟨cell', hcell', hblock'⟩
        cases hcell.symm.trans hcell'
        exact hblock hblock'

theorem Tidy.get (hw : w.Tidy) {db : Int} {role : RedisRole} {index : Int} {rand : Nat}
    (hclear : ∀ i : Fin maxDbNum, (i.val : Int) = db → ¬w.Stale (w.route i role index rand))
    (env : GetEnv D W) :
    Ensures (fun r => Onward w r.2) (fun _ => ¬0 ≤ db) (w.get h db role index rand env) := by
  rcases lt_or_ge db 0 with hneg | hnonneg
  · rw [get_negative hneg]
    exact not_le.mpr hneg
  · rcases le_or_gt (maxDbNum : Int) db with hbeyond | hlt
    · rw [get_beyond hbeyond]
      exact .refl hw
    · have hval : ((⟨db.toNat, by omega⟩ : Fin maxDbNum).val : Int) = db :=
        Int.toNat_of_nonneg hnonneg
      generalize (⟨db.toNat, by omega⟩ : Fin maxDbNum) = i at hval
      subst hval
      rw [get_eq]
      obtain ⟨w', ptr, _, hget, hchange⟩ := hw.getSlot
        (route_hasSlot w.toManagerConfig i role index rand) (hclear i rfl) h env
      exact .of_ok hget hchange.onward

/-- Counting fails on no slot that is not stale. -/
theorem Tidy.add_slot (hw : w.Tidy) (hclear : ¬w.Stale s) {E : Fault → Prop}
    (count : ConnectionPool (RedisConnectionImpl C PoolPtr) → Int) (total : Int) :
    Ensures (fun _ => True) E
      (match w.slotPtr s with
        | none => .ok total
        | some ptr => do
            let cell ← w.livePool ptr
            .ok (total + count cell.world.pool) : Except Fault Int) := by
  rcases hw.cases_slot s with ⟨hptr, _⟩ | hstale | ⟨ptr, cell, rfl, hat⟩
  · rw [hptr]
    trivial
  · exact absurd hstale hclear
  · rw [hat.slotPtr]
    dsimp only
    rw [hat.livePool]
    trivial

theorem Tidy.countConnections (hw : w.Tidy) {role : RedisRole}
    (hclear : ∀ s, s.role = role → ¬w.Stale s) {E : Fault → Prop}
    (count : ConnectionPool (RedisConnectionImpl C PoolPtr) → Int) :
    Ensures (fun _ => True) E (w.countConnections role count) := by
  unfold ManagerWorld.countConnections
  cases role with
  | master =>
      apply Ensures.foldlM _ trivial
      intro total db _ _
      exact hw.add_slot (hclear (.master db) rfl) count total
  | slave =>
      apply Ensures.foldlM _ trivial
      intro total db _ _
      apply Ensures.foldlM _ trivial
      intro total index hindex _
      rw [hw.arrays.readSlave (List.mem_range.mp hindex), ok_do]
      exact hw.add_slot (hclear (.slave db index) rfl) count total

/-- A use that reaches no stale slot goes through, unless its caller asks for
what there is not. -/
theorem Tidy.uses (hw : w.Tidy) (hsettled : w.Settled) {call : PublicCall D W} (huses : call.Uses)
    (hclear : ∀ s, call.Reaches w.toManagerConfig s → ¬w.Stale s) :
    Ensures (Onward w) (fun _ => ¬w.Admitted call) (w.perform h call) := by
  cases call with
  | get db role index rand env =>
      apply Ensures.map (hw.get (fun i hi => hclear _ ⟨i, hi, rfl⟩) env)
      exact fun _ hr => hr
  | doCommand conn command wire =>
      rw [perform, doCommand_atPool]
      apply hw.atPool_onward hsettled
      · intro cell hblock
        rw [PoolCell.doCommand, PoolCell.take_none hblock]
      · intro ptr cell hcell hblock
        obtain ⟨cell', hdo, _⟩ := PoolCell.doCommand_lent hblock h command wire
        exact ⟨cell', hdo, hcell.doCommand hdo⟩
  | done conn now =>
      rw [perform, hw.done_atPool hsettled]
      apply hw.atPool_onward hsettled
      · intro cell hblock
        rw [PoolCell.done, PoolCell.take_none hblock]
      · intro ptr cell hcell hblock
        obtain ⟨cell', hdone, _⟩ := hcell.done_lent hblock now
        exact ⟨cell', hdone, hcell.done hdone⟩
  | activeConnectionCount role =>
      exact Ensures.map (hw.countConnections hclear _) fun _ _ => .refl hw
  | connectionInPool role =>
      exact Ensures.map (hw.countConnections hclear _) fun _ _ => .refl hw
  | connectionInUse role =>
      apply Ensures.map _ fun (_ : Int) (_ : True) => .refl hw
      apply Ensures.bind (hw.countConnections hclear _)
      intro active _
      apply Ensures.bind (hw.countConnections hclear _)
      intro idle _
      trivial
  | init => exact huses.elim
  | initEx => exact huses.elim
  | flush => exact huses.elim

end ManagerWorld

end CloRedis
