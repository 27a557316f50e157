import CloRedis.Manager.Counts

/-!
The connections a manager has lent. `Get` lends the one it returns, `Done`
takes back the one it is called on, and everything else leaves them lent.
-/

namespace CloRedis

open Library

variable {C D W : Type}

/-- The blocks of the lent connections. -/
def PoolCell.blocks (cell : PoolCell C) : List Block := cell.world.lent.map (·.block)

namespace PoolCell

variable {self : PoolPtr} {cell cell' : PoolCell C} {block : Block}

theorem Intact.blocks_nodup (hcell : cell.Intact self) : cell.blocks.Nodup := by
  have hall := hcell.books.blocks.nodup_iff.mpr List.nodup_range
  exact (List.nodup_append.mp (List.nodup_append.mp hall).1).2.1

@[simp] theorem get_blocks (h : Hiredis C D W) (env : GetEnv D W) :
    (cell.get h self env).2.blocks = (cell.get h self env).1.toList ++ cell.blocks := by
  unfold blocks get
  dsimp only
  rw [List.map_append]
  cases (cell.world.pool.get cell.option env.clock (RedisConnectionImpl.callEnv h cell.binding self
    env.malloc env.garbage env.connect)).item <;> rfl

theorem take_lent (hblock : block ∈ cell.blocks) :
    ∃ item rest, takeFirst (isBlock block) cell.world.lent = some (item, rest) := by
  obtain ⟨item, hitem, rfl⟩ := List.mem_map.mp hblock
  exact takeFirst_exists hitem (by simp [isBlock])

theorem take_none (hblock : block ∉ cell.blocks) :
    takeFirst (isBlock block) cell.world.lent = none := by
  cases htake : takeFirst (isBlock block) cell.world.lent with
  | none => rfl
  | some r =>
      obtain ⟨item, rest⟩ := r
      have hitem : item.block = block := by simpa [isBlock] using (takeFirst_split htake).1
      have hmem := (takeFirst_perm htake).symm.subset (List.mem_cons_self ..)
      exact absurd (hitem ▸ List.mem_map_of_mem hmem) hblock

theorem take_blocks {item : ListItem (RedisConnectionImpl C PoolPtr)}
    {rest : List (ListItem (RedisConnectionImpl C PoolPtr))}
    (htake : takeFirst (isBlock block) cell.world.lent = some (item, rest)) :
    item.block = block ∧ cell.blocks.Perm (block :: rest.map (·.block)) := by
  have hblock : item.block = block := by simpa [isBlock] using (takeFirst_split htake).1
  have hperm := (takeFirst_perm htake).map (·.block)
  rw [List.map_cons, hblock] at hperm
  exact ⟨hblock, hperm⟩

/-- `Done` succeeds on what is lent, and takes back that connection only. -/
theorem Intact.done_lent (hcell : cell.Intact self) (hblock : block ∈ cell.blocks)
    (now : Option Timeval) :
    ∃ cell', cell.done block now = .ok cell' ∧
      ∀ b, b ∈ cell'.blocks ↔ b ∈ cell.blocks ∧ b ≠ block := by
  obtain ⟨item, rest, htake⟩ := take_lent hblock
  have hperm := (take_blocks htake).2
  have hnodup := hperm.nodup_iff.mp hcell.blocks_nodup
  refine ⟨_, by simp only [PoolCell.done, htake]; rfl, ?_⟩
  intro b
  change b ∈ rest.map (·.block) ↔ _
  rw [hperm.mem_iff, List.mem_cons]
  constructor
  · intro hrest
    refine ⟨Or.inr hrest, ?_⟩
    rintro rfl
    exact (List.nodup_cons.mp hnodup).1 hrest
  · rintro ⟨rfl | hrest, hne⟩
    · exact absurd rfl hne
    · exact hrest

theorem doCommand_lent (hblock : block ∈ cell.blocks) (h : Hiredis C D W) (command : Command)
    (wire : W) :
    ∃ cell', cell.doCommand h block command wire = .ok cell' ∧
      ∀ b, b ∈ cell'.blocks ↔ b ∈ cell.blocks := by
  obtain ⟨item, rest, htake⟩ := take_lent hblock
  obtain ⟨hitem, hperm⟩ := take_blocks htake
  refine ⟨_, by simp only [doCommand, htake]; rfl, ?_⟩
  intro b
  rw [hperm.mem_iff, ← hitem]
  rfl

end PoolCell

namespace ManagerWorld

variable {w w' : ManagerWorld C} {s : Slot} {cell : PoolCell C} {conn : ConnPtr}

/-- The connection is lent by its pool. -/
def Lent (w : ManagerWorld C) (conn : ConnPtr) : Prop :=
  ∃ cell, w.cellAt conn.pool = some cell ∧ conn.block ∈ cell.blocks

theorem Intact.lent_iff (hw : w.Intact) (conn : ConnPtr) :
    w.Lent conn ↔ conn.pool.gen = 0 ∧ conn.block ∈ (w.poolFor conn.pool.slot).blocks := by
  constructor
  · rintro ⟨cell, hcell, hblock⟩
    obtain ⟨hgen, hpool⟩ := hw.cell_of_ptr hcell
    refine ⟨hgen, ?_⟩
    rwa [poolFor, hpool]
  · rintro ⟨hgen, hblock⟩
    cases hpool : w.poolAt conn.pool.slot with
    | none =>
        rw [poolFor, hpool] at hblock
        cases hslot : conn.pool.slot <;>
          simp [hslot, ManagerConfig.freshPool, PoolCell.blocks] at hblock
    | some cell =>
        rw [poolFor, hpool] at hblock
        refine ⟨cell, ?_, hblock⟩
        simp [cellAt, (hw.full hpool).2.1, hgen]

/-- A change of one slot changes what its pool has lent. -/
theorem SlotChange.lent_iff (hw : w.Intact) (hchange : SlotChange w w' s cell) (conn : ConnPtr) :
    w'.Lent conn ↔ conn.pool = ⟨s, 0⟩ ∧ conn.block ∈ cell.blocks ∨
      conn.pool.slot ≠ s ∧ w.Lent conn := by
  rw [hchange.intact.lent_iff, hw.lent_iff]
  obtain ⟨⟨k, gen⟩, block⟩ := conn
  by_cases hk : k = s
  · subst hk
    have hfor : w'.poolFor k = cell := by rw [poolFor, hchange.here]; rfl
    simp [hfor]
  · have hfor : w'.poolFor k = w.poolFor k := by
      rw [poolFor, poolFor, hchange.others k hk, hchange.config]
    simp [hk, hfor]

/-- A `Get` on the pool of a slot lends what it returns. -/
theorem SlotChange.lent_get {h : Hiredis C D W} {env : GetEnv D W} {old : PoolCell C}
    (hchange : SlotChange w w' s (old.get h ⟨s, 0⟩ env).2) (hw : w.Intact)
    (hold : w.poolFor s = old) (conn : ConnPtr) :
    w'.Lent conn ↔
      w.Lent conn ∨ (old.get h ⟨s, 0⟩ env).1.map (ConnPtr.mk ⟨s, 0⟩) = some conn := by
  rw [hchange.lent_iff hw, PoolCell.get_blocks, hw.lent_iff]
  obtain ⟨⟨k, gen⟩, block⟩ := conn
  by_cases hk : k = s
  · subst hk
    cases hfound : (old.get h ⟨k, 0⟩ env).1 with
    | none => simp [hold]
    | some new =>
        simp only [Option.toList_some, List.singleton_append, List.mem_cons, Option.map_some,
          Option.some.injEq, ConnPtr.mk.injEq, PoolPtr.mk.injEq, true_and, ne_eq,
          not_true_eq_false, false_and, or_false, hold]
        constructor
        · rintro ⟨rfl, rfl | hlent⟩
          · exact Or.inr ⟨rfl, rfl⟩
          · exact Or.inl ⟨rfl, hlent⟩
        · rintro (⟨rfl, hlent⟩ | ⟨rfl, rfl⟩)
          · exact ⟨rfl, Or.inr hlent⟩
          · exact ⟨rfl, Or.inl rfl⟩
  · have hne : (old.get h ⟨s, 0⟩ env).1.map (ConnPtr.mk ⟨s, 0⟩) ≠ some ⟨⟨k, gen⟩, block⟩ := by
      intro heq
      obtain ⟨b, _, hb⟩ := Option.map_eq_some_iff.mp heq
      cases hb
      exact hk rfl
    simp [hk, hne]

/-- `Get` lends what it returns, which was not lent. -/
theorem Intact.get_lent (hw : w.Intact) (h : Hiredis C D W) (db : Fin maxDbNum) (role : RedisRole)
    (index : Int) (rand : Nat) (env : GetEnv D W) :
    ∃ found w', w.get h db.val role index rand env = .ok (found, w') ∧ w'.Intact ∧
      (∀ conn ∈ found, ¬w.Lent conn) ∧ ∀ conn, w'.Lent conn ↔ w.Lent conn ∨ found = some conn := by
  obtain ⟨w', hget, hchange⟩ := hw.get h db role index rand env rfl
  refine ⟨_, w', hget, hchange.intact, ?_, hchange.lent_get hw rfl⟩
  have hnodup := (hchange.intact.full hchange.here).2.2.blocks_nodup
  rw [PoolCell.get_blocks] at hnodup
  intro conn hconn hlent
  obtain ⟨block, hblock, rfl⟩ := Option.map_eq_some_iff.mp hconn
  have hold := ((hw.lent_iff _).mp hlent).2
  rw [hblock] at hnodup
  exact (List.nodup_cons.mp hnodup).1 hold

/-- `Done` on a lent connection takes it back. -/
theorem Intact.done_lent (hw : w.Intact) (hlent : w.Lent conn) (now : Option Timeval) :
    ∃ w', w.done conn now = .ok w' ∧ w'.Intact ∧
      ∀ other, w'.Lent other ↔ w.Lent other ∧ other ≠ conn := by
  obtain ⟨⟨s, gen⟩, block⟩ := conn
  obtain ⟨cell, hcell, hblock⟩ := hlent
  obtain ⟨hgen, hpool⟩ := hw.cell_of_ptr hcell
  cases hgen
  obtain ⟨cell', hdone, hblocks⟩ := (hw.full hpool).2.2.done_lent hblock now
  have hchange := hw.setPool hpool ((hw.full hpool).2.2.done hdone)
  refine ⟨_, by rw [hw.done hpool, hdone]; rfl, hchange.intact, ?_⟩
  intro other
  rw [hchange.lent_iff hw, hw.lent_iff]
  obtain ⟨⟨k, gen⟩, b⟩ := other
  by_cases hk : k = s
  · subst hk
    have hfor : w.poolFor k = cell := by rw [poolFor, hpool]; rfl
    simp only [hfor, hblocks, PoolPtr.mk.injEq, true_and, ne_eq, not_true_eq_false, false_and,
      or_false, ConnPtr.mk.injEq]
    constructor
    · rintro ⟨rfl, hb, hne⟩
      exact ⟨⟨rfl, hb⟩, fun heq => hne heq.2⟩
    · rintro ⟨⟨rfl, hb⟩, hne⟩
      exact ⟨rfl, hb, fun heq => hne ⟨rfl, heq⟩⟩
  · simp [hk]

theorem Intact.doCommand_lent (hw : w.Intact) (hlent : w.Lent conn) (h : Hiredis C D W)
    (command : Command) (wire : W) :
    ∃ w', w.doCommand h conn command wire = .ok w' ∧ w'.Intact ∧
      ∀ other, w'.Lent other ↔ w.Lent other := by
  obtain ⟨⟨s, gen⟩, block⟩ := conn
  obtain ⟨cell, hcell, hblock⟩ := hlent
  obtain ⟨hgen, hpool⟩ := hw.cell_of_ptr hcell
  cases hgen
  obtain ⟨cell', hdo, hblocks⟩ := PoolCell.doCommand_lent hblock h command wire
  have hchange := hw.setPool hpool ((hw.full hpool).2.2.doCommand hdo)
  refine ⟨_, by rw [doCommand_eq hcell, hdo]; rfl, hchange.intact, ?_⟩
  intro other
  rw [hchange.lent_iff hw, hw.lent_iff]
  obtain ⟨⟨k, gen⟩, b⟩ := other
  by_cases hk : k = s
  · subst hk
    have hfor : w.poolFor k = cell := by rw [poolFor, hpool]; rfl
    simp [hfor, hblocks]
  · simp [hk]

/-- With nothing lent, no connection is in use. -/
theorem Intact.connectionInUse_zero (hw : w.Intact) (hnone : ∀ conn, ¬w.Lent conn)
    (role : RedisRole) : w.connectionInUse role = .ok 0 := by
  rw [hw.connectionInUse]
  congr 1
  apply List.sum_eq_zero
  intro n hn
  obtain ⟨s, _, rfl⟩ := List.mem_map.mp hn
  cases hpool : w.poolAt s with
  | none => rfl
  | some cell =>
      have hempty : cell.blocks = [] := by
        apply List.eq_nil_iff_forall_not_mem.mpr
        intro block hblock
        apply hnone ⟨⟨s, 0⟩, block⟩
        refine ⟨cell, ?_, hblock⟩
        simp [cellAt, (hw.full hpool).2.1]
      simp [List.map_eq_nil_iff.mp hempty]

end ManagerWorld

end CloRedis
