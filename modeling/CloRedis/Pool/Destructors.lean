import CloRedis.Pool.HeapCalls

/-!
The teardown of a pool. `~ConnectionPool` frees the blocks of the free list;
then `~IdleList` walks along the idle nodes, runs the destructor of each
connection, frees its block, and takes `next` from the node it has just freed.
The teardown does what it is for exactly when no connection is idle.
-/

namespace CloRedis

open Library

variable {α : Type*}

/-- The memory during the teardown, and what the destructors did so far. -/
structure Teardown (α : Type*) where
  nodes : Memory α
  destructed : List Block := []
  freed : List Block := []

namespace Teardown

/-- `free` takes the block out of the memory. -/
def free (s : Teardown α) (block : Block) : Except Fault (Teardown α) :=
  if block ∈ s.nodes then
    .ok { s with nodes := s.nodes.erase block, freed := block :: s.freed }
  else .error .doubleDelete

/-- `t->~T()` -/
def destruct (s : Teardown α) (block : Block) : Except Fault (Teardown α) := do
  let _ ← s.nodes.deref (some block)
  .ok { s with destructed := block :: s.destructed }

/-- The field `next` of a node. What a block that was freed answers is not for
the program to say. -/
def readNext (stale : Block → Except Fault (Option Block)) (s : Teardown α) (block : Block) :
    Except Fault (Option Block) :=
  match s.nodes.lookup block with
  | some node => .ok node.next
  | none => stale block

/-- One turn of the loop of `~IdleList`; `tobj = tobj->next` follows the body. -/
def walkBody (stale : Block → Except Fault (Option Block)) (s : Option Block × Teardown α) :
    Except Fault ((Option Block × Teardown α) ⊕ Teardown α) :=
  match s.1 with
  | none => .ok (.inr s.2)
  | some tobj => do
      let destructed ← s.2.destruct tobj
      let freed ← destructed.free tobj
      (freed.readNext stale tobj).map fun next => .inl (next, freed)

/-- `~IdleList` -/
def walk (stale : Block → Except Fault (Option Block)) (front : Option Block) (s : Teardown α) :
    Except Fault (Teardown α) :=
  runLoop (attempt (walkBody stale)) (fun s => .ok s.2) (s.nodes.keys.card + 1) (front, s)

/-- A freed block is not in memory any more. -/
def gone : Block → Except Fault (Option Block) := fun _ => .error .useAfterDelete

/-- A freed block still holds what it held in this memory. -/
def leftover (m : Memory α) : Block → Except Fault (Option Block) := fun block => .ok (m.next block)

end Teardown

/-- `~ConnectionPool`, and after it `~IdleList` for the field `idle_`. The free
list it finds then is empty. -/
def HeapPool.teardown (stale : Block → Except Fault (Option Block)) (p : HeapPool α) :
    Except Fault (Teardown α) := do
  let s ← run Teardown.free { nodes := p.nodes } p.memPool
  Teardown.walk stale p.idle.front s

namespace Teardown

variable {stale : Block → Except Fault (Option Block)} {s s' : Teardown α} {block : Block}
  {blocks items : List Block}

theorem free_mem (h : block ∈ s.nodes) :
    s.free block = .ok { s with nodes := s.nodes.erase block, freed := block :: s.freed } := by
  unfold free
  rw [if_pos h]

theorem destruct_mem (h : block ∈ s.nodes) :
    s.destruct block = .ok { s with destructed := block :: s.destructed } := by
  obtain ⟨node, hnode⟩ := Finmap.mem_iff.mp h
  unfold destruct
  rw [Memory.deref_some hnode, ok_do]

/-- Blocks that are in memory, each named once, can be freed. -/
theorem run_free (hmem : ∀ b ∈ blocks, b ∈ s.nodes) (hnodup : blocks.Nodup) :
    ∃ s', run free s blocks = .ok s' ∧ s'.freed = blocks.reverse ++ s.freed ∧
      s'.destructed = s.destructed ∧ ∀ b, b ∉ blocks → b ∈ s.nodes → b ∈ s'.nodes := by
  induction blocks generalizing s with
  | nil => exact ⟨s, rfl, rfl, rfl, fun _ _ hb => hb⟩
  | cons block blocks ih =>
      obtain ⟨hblock, hrest⟩ := List.forall_mem_cons.mp hmem
      obtain ⟨hnew, hnodup⟩ := List.nodup_cons.mp hnodup
      have hleft : ∀ b ∈ blocks, b ∈ s.nodes.erase block := by
        intro b hb
        exact Finmap.mem_erase.mpr ⟨fun heq => hnew (heq ▸ hb), hrest b hb⟩
      obtain ⟨s', hrun, hfreed, hdestructed, hkept⟩ :=
        ih (s := { s with nodes := s.nodes.erase block, freed := block :: s.freed }) hleft hnodup
      refine ⟨s', run_cons_ok.mpr ⟨_, free_mem hblock, hrun⟩, ?_, hdestructed, ?_⟩
      · rw [hfreed, List.reverse_cons, List.append_assoc]
        rfl
      · intro b hb hpresent
        obtain ⟨hne, hb⟩ := not_or.mp (mt List.mem_cons.mpr hb)
        exact hkept b hb (Finmap.mem_erase.mpr ⟨hne, hpresent⟩)

/-! ### The walk -/

/-- A turn on a node in memory: what comes next is read when it is freed. -/
theorem walkBody_mem (hmem : block ∈ s.nodes) :
    walkBody stale (some block, s) = (stale block).map fun next =>
      .inl (next, { nodes := s.nodes.erase block, destructed := block :: s.destructed,
                    freed := block :: s.freed }) := by
  have hfree : free { s with destructed := block :: s.destructed } block = _ := free_mem hmem
  simp only [walkBody, destruct_mem hmem, ok_do, hfree, readNext, Finmap.lookup_erase]

theorem walkBody_absent (habsent : block ∉ s.nodes) :
    walkBody stale (some block, s) = .error .useAfterDelete := by
  have hread : s.nodes.deref (some block) = .error .useAfterDelete := by
    simp only [Memory.deref, Finmap.lookup_eq_none.mpr habsent]
  simp only [walkBody, destruct, hread]
  rfl

/-- Every turn frees a block, so the walk ends, whatever it reads. -/
theorem walk_loop (stale : Block → Except Fault (Option Block)) (front : Option Block)
    (s : Teardown α) : Loop (attempt (walkBody stale)) (front, s) (walk stale front s) := by
  have hfuel : s.nodes.keys.card < s.nodes.keys.card + 1 := Nat.lt_succ_self _
  apply loop_runLoop _ (fun s : Option Block × Teardown α => s.2.nodes.keys.card) _ hfuel
  rintro ⟨tobj, s⟩ s' hturn
  have hbody := attempt_inl hturn
  cases tobj with
  | none => cases hbody
  | some block =>
      by_cases hmem : block ∈ s.nodes
      · rw [walkBody_mem hmem] at hbody
        obtain ⟨next, _, hnext⟩ := map_ok.mp hbody
        cases hnext
        dsimp only
        rw [Finmap.keys_erase]
        exact Finset.card_erase_lt_of_mem (Finmap.mem_keys.mpr hmem)
      · rw [walkBody_absent hmem] at hbody
        cases hbody

/-- In the memory without freed blocks no turn leads to the next: the node that
holds the pointer to it is gone. -/
theorem walk_gone (block : Block) (s : Teardown α) :
    walk gone (some block) s = .error .useAfterDelete := by
  have hbody : walkBody gone (some block, s) = .error .useAfterDelete := by
    by_cases hmem : block ∈ s.nodes
    · rw [walkBody_mem hmem]
      rfl
    · exact walkBody_absent hmem
  have hturn := attempt_error hbody
  simp only [walk, runLoop, hturn]

/-- Where freed blocks keep what they held, the walk comes to every node. -/
theorem walk_leftover {m : Memory α} (hlinks : Follows m.next items)
    (hmem : ∀ b ∈ items, b ∈ s.nodes) (hnodup : items.Nodup) :
    ∃ s', Loop (attempt (walkBody (leftover m))) (items.head?, s) (.ok s') ∧
      s'.destructed = items.reverse ++ s.destructed ∧ s'.freed = items.reverse ++ s.freed := by
  induction items generalizing s with
  | nil => exact ⟨s, .stop rfl, rfl, rfl⟩
  | cons block items ih =>
      obtain ⟨hblock, hrest⟩ := List.forall_mem_cons.mp hmem
      obtain ⟨hnew, hnodup⟩ := List.nodup_cons.mp hnodup
      have hleft : ∀ b ∈ items, b ∈ s.nodes.erase block := by
        intro b hb
        exact Finmap.mem_erase.mpr ⟨fun heq => hnew (heq ▸ hb), hrest b hb⟩
      obtain ⟨s', hloop, hdestructed, hfreed⟩ := ih (s := {
        nodes := s.nodes.erase block, destructed := block :: s.destructed,
        freed := block :: s.freed }) hlinks.2 hleft hnodup
      refine ⟨s', .next (attempt_next ?_) hloop, ?_, ?_⟩
      · rw [List.head?_cons, walkBody_mem hblock, leftover, hlinks.1]
        rfl
      · rw [hdestructed, List.reverse_cons, List.append_assoc]
        rfl
      · rw [hfreed, List.reverse_cons, List.append_assoc]
        rfl

end Teardown

namespace HeapPool

/-- The teardown leaves its loops with a result, without fuel. -/
def TeardownEnds (stale : Block → Except Fault (Option Block)) (p : HeapPool α)
    (r : Except Fault (Teardown α)) : Prop :=
  ∃ s, run Teardown.free { nodes := p.nodes } p.memPool = .ok s ∧
    Loop (attempt (Teardown.walkBody stale)) (p.idle.front, s) r

/-- What a teardown is for: it ends, the destructor of every connection on the
idle list has run once, and every block that `malloc` handed out is freed once. -/
structure TornDown (stale : Block → Except Fault (Option Block)) (p : HeapPool α)
    (items : List Block) (s : Teardown α) : Prop where
  ends : p.TeardownEnds stale (.ok s)
  destructed : s.destructed.Perm items
  freed : s.freed.Perm (List.range p.mallocs)

theorem teardownEnds_iff (stale : Block → Except Fault (Option Block)) {p : HeapPool α}
    {s : Teardown α} (r : Except Fault (Teardown α))
    (hfree : run Teardown.free { nodes := p.nodes } p.memPool = .ok s) :
    p.TeardownEnds stale r ↔ p.teardown stale = r := by
  have hteardown : p.teardown stale = Teardown.walk stale p.idle.front s := by
    unfold teardown
    rw [hfree, ok_do]
  rw [hteardown]
  constructor
  · rintro ⟨s', hfree', hloop⟩
    cases hfree.symm.trans hfree'
    exact (Teardown.walk_loop _ _ s).unique hloop
  · rintro rfl
    exact ⟨s, hfree, Teardown.walk_loop _ _ s⟩

end HeapPool

namespace HeapWorld

variable {o : ConnectionPoolOption} {clock : Clock} {calls : List (Call α)} {w : HeapWorld α}
  {v : TimedWorld α}

/-- With nothing lent, the blocks are those of the idle nodes and the free ones. -/
theorem blocks_perm (hrep : w.Represents v) (hlent : w.lent = []) :
    (v.pool.idleBlocks ++ w.pool.memPool).Perm (List.range w.pool.mallocs) := by
  have hperm := hrep.lent
  rw [hlent] at hperm
  have hnone : v.lent.map (·.block) = [] := List.nil_perm.mp hperm
  have hblocks := hrep.pool.sound.blocks
  unfold Ledger at hblocks
  rw [hnone, List.append_nil] at hblocks
  rw [hrep.pool.memPool, hrep.pool.mallocs]
  exact hblocks

/-- `~ConnectionPool` frees the blocks of the free list, each once, and leaves
the idle nodes. -/
theorem run_free (hrep : w.Represents v) (hlent : w.lent = []) :
    ∃ s, run Teardown.free { nodes := w.pool.nodes } w.pool.memPool = .ok s ∧
      s.freed = w.pool.memPool.reverse ∧ s.destructed = [] ∧
      ∀ b ∈ v.pool.idleBlocks, b ∈ s.nodes := by
  have hperm := blocks_perm hrep hlent
  obtain ⟨_, hnodup, hdisjoint⟩ :=
    List.nodup_append.mp (hperm.nodup_iff.mpr List.nodup_range)
  have hmem : ∀ b ∈ w.pool.memPool, b ∈ w.pool.nodes := by
    intro b hb
    have hlt := hperm.subset (List.mem_append_right _ hb)
    exact (hrep.pool.allocated b).mpr (List.mem_range.mp hlt)
  obtain ⟨s, hfree, hfreed, hdestructed, hkept⟩ :=
    Teardown.run_free (s := { nodes := w.pool.nodes }) hmem hnodup
  refine ⟨s, hfree, ?_, hdestructed, ?_⟩
  · rw [hfreed, List.append_nil]
  · intro b hb
    exact hkept b (fun hfree => hdisjoint b hb b hfree rfl) (hrep.pool.idle.mem b hb)

/-- After a run that leaves nothing lent, the teardown does what it is for
exactly when no connection is idle; otherwise it reads a node it has freed. -/
theorem torn_down_iff (hrun : run (step o clock) {} calls = .ok w) (hlent : w.lent = []) :
    ∃ items, w.pool.idle.Represents items ∧
      ((∃ s, w.pool.TornDown Teardown.gone items s) ↔ w.pool.connInPool = 0) ∧
      (w.pool.connInPool ≠ 0 → w.pool.TeardownEnds Teardown.gone (.error .useAfterDelete)) := by
  obtain ⟨v, _, hrep⟩ := reachable_represents hrun
  have hperm := blocks_perm hrep hlent
  have hcount : w.pool.connInPool = v.pool.idleBlocks.length := hrep.pool.idle.links.count
  have hfront : w.pool.idle.front = v.pool.idleBlocks.head? := hrep.pool.idle.links.front
  obtain ⟨s, hfree, hfreed, hdestructed, _⟩ := run_free hrep hlent
  have hends := fun r => HeapPool.teardownEnds_iff Teardown.gone r hfree
  have hteardown : w.pool.teardown Teardown.gone =
      Teardown.walk Teardown.gone v.pool.idleBlocks.head? s := by
    unfold HeapPool.teardown
    rw [hfree, ok_do, hfront]
  refine ⟨v.pool.idleBlocks, hrep.pool.idle.represents, ?_⟩
  cases hidle : v.pool.idleBlocks with
  | nil =>
      rw [hidle] at hcount hteardown hperm
      have hempty : w.pool.connInPool = 0 := hcount
      refine ⟨iff_of_true ⟨s, (hends _).mpr hteardown, ?_, ?_⟩ hempty, absurd hempty⟩
      · rw [hdestructed]
      · rw [hfreed]
        exact (List.reverse_perm _).trans hperm
  | cons block rest =>
      rw [hidle] at hcount hteardown
      have hsome : w.pool.connInPool ≠ 0 := by
        rw [hcount, List.length_cons]
        omega
      have hfault : w.pool.teardown Teardown.gone = .error .useAfterDelete :=
        hteardown.trans (Teardown.walk_gone block s)
      refine ⟨iff_of_false ?_ hsome, fun _ => (hends _).mpr hfault⟩
      rintro ⟨s', hends', _, _⟩
      have hok := (hends _).mp hends'
      cases hok.symm.trans hfault

/-- The only connection comes back bad, and nothing is idle. -/
theorem torn_down_iff_of_bad :
    ∃ w : HeapWorld Unit,
      run (step {} (stillClock 5000 fiveSeconds_lt)) {} [.get ⟨true, (), none⟩, .put 0 false] =
        .ok w ∧
      ∃ items s, w.pool.TornDown Teardown.gone items s := by
  obtain ⟨w, hrun, hlent, hempty⟩ : ∃ w : HeapWorld Unit,
      run (step {} (stillClock 5000 fiveSeconds_lt)) {} [.get ⟨true, (), none⟩, .put 0 false] =
        .ok w ∧ w.lent = [] ∧ w.pool.connInPool = 0 :=
    ⟨_, rfl, rfl, rfl⟩
  obtain ⟨items, _, hiff, _⟩ := torn_down_iff hrun hlent
  exact ⟨w, hrun, items, hiff.mpr hempty⟩

/-- The only connection comes back good: the teardown destroys it and frees its
block, and takes the next node from the freed one. -/
theorem freed_node_read :
    ∃ w : HeapWorld Unit,
      run (step {} (stillClock 5000 fiveSeconds_lt)) {} [.get ⟨true, (), none⟩, .put 0 true] =
        .ok w ∧
      w.lent = [] ∧ w.pool.idle.front = some 0 ∧
      w.pool.teardown Teardown.gone = .error .useAfterDelete ∧
      ∀ items s, ¬w.pool.TornDown Teardown.gone items s := by
  obtain ⟨w, s, hrun, hlent, hfront, hfree, hfault⟩ : ∃ (w : HeapWorld Unit) (s : Teardown Unit),
      run (step {} (stillClock 5000 fiveSeconds_lt)) {} [.get ⟨true, (), none⟩, .put 0 true] =
        .ok w ∧ w.lent = [] ∧ w.pool.idle.front = some 0 ∧
      run Teardown.free { nodes := w.pool.nodes } w.pool.memPool = .ok s ∧
      w.pool.teardown Teardown.gone = .error .useAfterDelete :=
    ⟨_, _, rfl, rfl, rfl, rfl, rfl⟩
  refine ⟨w, hrun, hlent, hfront, hfault, ?_⟩
  intro items s' htorn
  have hok := (HeapPool.teardownEnds_iff Teardown.gone (.ok s') hfree).mp htorn.ends
  cases hok.symm.trans hfault

/-- The read is all that is wrong: where a freed block still holds what it held
before the teardown, every connection is destroyed once and every block freed
once, after every run that leaves nothing lent. -/
theorem torn_down_of_leftover (hrun : run (step o clock) {} calls = .ok w) (hlent : w.lent = []) :
    ∃ items s, w.pool.idle.Represents items ∧
      w.pool.TornDown (Teardown.leftover w.pool.nodes) items s := by
  obtain ⟨v, _, hrep⟩ := reachable_represents hrun
  have hperm := blocks_perm hrep hlent
  have hfront : w.pool.idle.front = v.pool.idleBlocks.head? := hrep.pool.idle.links.front
  have hlinks := hrep.pool.idle.links.links
  obtain ⟨s, hfree, hfreed, hdestructed, hkept⟩ := run_free hrep hlent
  obtain ⟨s', hloop, hdestructed', hfreed'⟩ :=
    Teardown.walk_leftover hlinks.forth hkept hlinks.nodup
  refine ⟨v.pool.idleBlocks, s', hrep.pool.idle.represents, ⟨s, hfree, ?_⟩, ?_, ?_⟩
  · rw [hfront]
    exact hloop
  · rw [hdestructed', hdestructed, List.append_nil]
    exact List.reverse_perm _
  · rw [hfreed', hfreed]
    exact ((List.reverse_perm _).append (List.reverse_perm _)).trans hperm

/-- One of two connections comes back bad. -/
theorem torn_down_of_leftover_of_two :
    ∃ w : HeapWorld Unit,
      run (step {} (stillClock 5000 fiveSeconds_lt)) {}
        [.get ⟨true, (), none⟩, .get ⟨true, (), none⟩, .put 0 true, .put 1 false] = .ok w ∧
      ∃ items s, w.pool.idle.Represents items ∧
        w.pool.TornDown (Teardown.leftover w.pool.nodes) items s := by
  obtain ⟨w, hrun, hlent⟩ : ∃ w : HeapWorld Unit,
      run (step {} (stillClock 5000 fiveSeconds_lt)) {}
        [.get ⟨true, (), none⟩, .get ⟨true, (), none⟩, .put 0 true, .put 1 false] = .ok w ∧
      w.lent = [] :=
    ⟨_, rfl, rfl⟩
  exact ⟨w, hrun, torn_down_of_leftover hrun hlent⟩

end HeapWorld

end CloRedis
