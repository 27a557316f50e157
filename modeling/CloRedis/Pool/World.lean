import CloRedis.Library.Run
import CloRedis.Pool.Calls

/-!
A pool together with the connections its borrowers hold, under calls that
follow one another. Every section of the calls keeps the books of the pool:
the counter is the number of connections, every block is in one place, and
every connection ever built is idle, out of the pool, or destroyed. The whole
calls keep them by composition.
-/

namespace CloRedis

open Library

variable {α : Type*}

/-- The numbers `0..n-1` are shared out, each once, among the idle nodes, the
nodes outside the list, and the rest. -/
def Ledger (key : ListItem α → Nat) (idle out : List (ListItem α)) (rest : List Nat) (n : Nat) :
    Prop :=
  (idle.map key ++ out.map key ++ rest).Perm (List.range n)

namespace Ledger

variable {key : ListItem α → Nat} {idle out : List (ListItem α)} {rest : List Nat} {n : Nat}
  {item : ListItem α}

theorem congr {out' : List (ListItem α)} (h : Ledger key idle out rest n)
    (hout : (out'.map key).Perm (out.map key)) : Ledger key idle out' rest n :=
  ((hout.append_left _).append_right _).trans h

theorem pop {front back : List (ListItem α)} (h : Ledger key (front ++ item :: back) out rest n) :
    Ledger key (front ++ back) (item :: out) rest n := by
  refine List.Perm.trans ?_ h
  rw [List.perm_iff_count]
  intro k
  simp only [List.map_append, List.map_cons, List.count_append, List.count_cons]
  omega

theorem push (h : Ledger key idle (item :: out) rest n) : Ledger key (item :: idle) out rest n := by
  refine List.Perm.trans ?_ h
  rw [List.perm_iff_count]
  intro k
  simp only [List.map_cons, List.count_append, List.count_cons]
  omega

theorem settle (h : Ledger key idle (item :: out) rest n) :
    Ledger key idle out (key item :: rest) n := by
  refine List.Perm.trans ?_ h
  rw [List.perm_iff_count]
  intro k
  simp only [List.map_cons, List.count_append, List.count_cons]
  omega

theorem resume (h : Ledger key idle out (key item :: rest) n) :
    Ledger key idle (item :: out) rest n := by
  refine List.Perm.trans ?_ h
  rw [List.perm_iff_count]
  intro k
  simp only [List.map_cons, List.count_append, List.count_cons]
  omega

theorem issue (h : Ledger key idle out rest n) (hkey : key item = n) :
    Ledger key idle (item :: out) rest (n + 1) := by
  apply List.perm_iff_count.mpr
  intro k
  have hcount := h.count_eq k
  simp only [List.map_cons, List.count_append, List.count_cons, List.range_succ,
    List.count_nil, hkey] at hcount ⊢
  omega

end Ledger

/-- The books of a pool from which the connections `out` are taken: lent to a
borrower or in the hands of a call. -/
structure ConnectionPool.Sound (p : ConnectionPool α) (out : List (ListItem α)) : Prop where
  counted : p.activeCnt = p.idle.length + out.length
  blocks : Ledger (·.block) p.idle out p.memPool p.mallocs
  serials : Ledger (·.serial) p.idle out (p.destroyed.map (·.serial)) p.constructed

namespace ConnectionPool.Sound

variable {p : ConnectionPool α} {out : List (ListItem α)} {item : ListItem α}

theorem new : ({} : ConnectionPool α).Sound [] :=
  ⟨rfl, List.Perm.refl _, List.Perm.refl _⟩

/-- Only the blocks and the serial numbers of the connections outside count,
in any order. -/
theorem congr {out' : List (ListItem α)} (h : p.Sound out)
    (hblock : (out'.map (·.block)).Perm (out.map (·.block)))
    (hserial : (out'.map (·.serial)).Perm (out.map (·.serial))) : p.Sound out' where
  counted := by
    have hlen := hblock.length_eq
    simp only [List.length_map] at hlen
    rw [h.counted, hlen]
  blocks := h.blocks.congr hblock
  serials := h.serials.congr hserial

theorem perm {out' : List (ListItem α)} (h : p.Sound out) (hperm : out'.Perm out) :
    p.Sound out' :=
  h.congr (hperm.map _) (hperm.map _)

/-- A node leaves the idle list, from wherever it stood. -/
theorem pop (h : p.Sound out) (front back : List (ListItem α))
    (hidle : p.idle = front ++ item :: back) :
    ({ p with idle := front ++ back } : ConnectionPool α).Sound (item :: out) where
  counted := by
    have := h.counted
    simp only [hidle, List.length_append, List.length_cons] at this ⊢
    omega
  blocks := Ledger.pop (hidle ▸ h.blocks)
  serials := Ledger.pop (hidle ▸ h.serials)

theorem pushFront (h : p.Sound (item :: out)) : (p.pushFront item).Sound out where
  counted := by
    have := h.counted
    simp only [ConnectionPool.pushFront, List.length_cons] at this ⊢
    omega
  blocks := h.blocks.push
  serials := h.serials.push

theorem gc (h : p.Sound (item :: out)) : (p.gc item).Sound out where
  counted := by
    have := h.counted
    simp only [ConnectionPool.gc, recycle, countDown, List.length_cons] at this ⊢
    omega
  blocks := h.blocks.settle
  serials := h.serials.settle

/-- A new connection is built in the block obtained for it. -/
theorem create {block : Block} {p' : ConnectionPool α} (h : p.Sound out)
    (hblock : p.Obtains block p') (clock : Clock) (ticks : Nat) (object : α) :
    ({ p' with activeCnt := p'.activeCnt + 1, constructed := p'.constructed + 1 } :
      ConnectionPool α).Sound (p'.newItem clock ticks block object :: out) := by
  have hcount := h.counted
  cases hblock with
  | recycled block rest hpool =>
      have hblocks := h.blocks
      rw [hpool] at hblocks
      refine ⟨?_, Ledger.resume hblocks, h.serials.issue rfl⟩
      simp only [List.length_cons]
      omega
  | allocated hpool =>
      refine ⟨?_, h.blocks.issue rfl, h.serials.issue rfl⟩
      simp only [List.length_cons]
      omega

theorem block_unique {other : ListItem α} (h : p.Sound out) (hitem : item ∈ out)
    (hother : other ∈ out) (hblock : item.block = other.block) : item = other := by
  have hall : (p.idle.map (·.block) ++ out.map (·.block) ++ p.memPool).Nodup :=
    h.blocks.nodup_iff.mpr List.nodup_range
  have hout : (out.map (·.block)).Nodup :=
    (List.nodup_append.mp (List.nodup_append.mp hall).1).2.1
  exact List.inj_on_of_nodup_map hout hitem hother hblock

/-- A connection outside shares its block with no other. -/
theorem block_apart (h : p.Sound (item :: out)) :
    ∀ other ∈ p.idle ++ out, other.block ≠ item.block := by
  have hall : (p.idle.map (·.block) ++ (item :: out).map (·.block) ++ p.memPool).Nodup :=
    h.blocks.nodup_iff.mpr List.nodup_range
  obtain ⟨_, hout, hdisjoint⟩ := List.nodup_append.mp (List.nodup_append.mp hall).1
  rw [List.map_cons, List.nodup_cons] at hout
  intro other hother heq
  rcases List.mem_append.mp hother with hidle | hmem
  · exact hdisjoint _ (List.mem_map_of_mem hidle) _
      (List.mem_map_of_mem (List.mem_cons_self ..)) heq
  · exact hout.1 (heq ▸ List.mem_map_of_mem hmem)

/-- A connection that was destroyed was destroyed once, and is nowhere else. -/
theorem destroyed_once {serial : Nat} (h : p.Sound out)
    (hgone : serial ∈ p.destroyed.map (·.serial)) :
    (p.destroyed.map (·.serial)).count serial = 1 ∧ serial ∉ p.idle.map (·.serial) ∧
      serial ∉ out.map (·.serial) := by
  have hall : (p.idle.map (·.serial) ++ out.map (·.serial) ++ p.destroyed.map (·.serial)).Nodup :=
    h.serials.nodup_iff.mpr List.nodup_range
  obtain ⟨_, hdestroyed, hdisjoint⟩ := List.nodup_append.mp hall
  refine ⟨List.count_eq_one_of_mem hdestroyed hgone, ?_, ?_⟩
  · intro hidle
    exact hdisjoint _ (List.mem_append_left _ hidle) _ hgone rfl
  · intro hout
    exact hdisjoint _ (List.mem_append_right _ hout) _ hgone rfl

/-- A connection outside is not idle. -/
theorem serial_apart (h : p.Sound out) (hitem : item ∈ out) :
    ∀ other ∈ p.idle, other.serial ≠ item.serial := by
  have hall : (p.idle.map (·.serial) ++ out.map (·.serial) ++ p.destroyed.map (·.serial)).Nodup :=
    h.serials.nodup_iff.mpr List.nodup_range
  have hdisjoint := (List.nodup_append.mp (List.nodup_append.mp hall).1).2.2
  intro other hother heq
  exact hdisjoint _ (List.mem_map_of_mem hother) _ (List.mem_map_of_mem hitem) heq

/-- An idle connection is the only one with its serial number, which is no
future one. -/
theorem serial_unique (h : p.Sound out) (hitem : item ∈ p.idle) :
    item.serial < p.constructed ∧ ∀ other ∈ p.idle, other.serial = item.serial → other = item := by
  have hall : (p.idle.map (·.serial) ++ out.map (·.serial) ++ p.destroyed.map (·.serial)).Nodup :=
    h.serials.nodup_iff.mpr List.nodup_range
  have hidle := (List.nodup_append.mp (List.nodup_append.mp hall).1).1
  constructor
  · have hmem := h.serials.subset
      (List.mem_append_left _ (List.mem_append_left _ (List.mem_map_of_mem hitem)))
    exact List.mem_range.mp hmem
  · intro other hother heq
    exact List.inj_on_of_nodup_map hidle hother hitem heq

/-! ### The calls keep the books -/

theorem sweep {o : ConnectionPoolOption} {clock : Clock} {s : Progress α}
    (h : s.pool.Sound out) : (ConnectionPool.sweep o clock s).pool.Sound out := by
  refine Loop.invariant (I := fun s : Progress α => s.pool.Sound out)
    (Q := fun r : Progress α => r.pool.Sound out) ?_ ?_ (sweep_loop o clock s) h
  · intro s s' hs hnext
    obtain ⟨front, item, hidle, _, rfl⟩ := sweepBody_next hnext
    have hpop := hs.pop front [] hidle
    rw [List.append_nil] at hpop
    exact hpop.gc
  · intro s r hs hstop
    rcases sweepBody_stop hstop with ⟨_, rfl⟩ | ⟨_, _, _, rfl⟩ <;> exact hs

theorem scan (o : ConnectionPoolOption) (clock : Clock) {s : Progress α}
    (h : s.pool.Sound out) :
    (ConnectionPool.scan o clock s).2.pool.Sound
      ((ConnectionPool.scan o clock s).1.toList ++ out) := by
  refine Loop.invariant (I := fun s : Progress α => s.pool.Sound out)
    (Q := fun r : Option (ListItem α) × Progress α => r.2.pool.Sound (r.1.toList ++ out))
    ?_ ?_ (scan_loop o clock s) h
  · intro s s' hs hnext
    obtain ⟨item, behind, hidle, _, rfl⟩ := scanBody_next hnext
    exact (hs.pop [] behind hidle).gc
  · rintro s ⟨found, r⟩ hs hstop
    rcases scanBody_stop hstop with ⟨_, rfl, rfl⟩ | ⟨item, behind, hidle, rfl, _, rfl⟩
    · exact hs
    · exact hs.pop [] behind hidle

theorem getNewInstance {clock : Clock} {env : CallEnv α} {s : Progress α}
    (h : s.pool.Sound out) :
    (ConnectionPool.getNewInstance clock env s).pool.Sound
      ((ConnectionPool.getNewInstance clock env s).item.toList ++ out) := by
  have hcreated := getNewInstance_created clock env s
  generalize ConnectionPool.getNewInstance clock env s = r at hcreated ⊢
  cases hcreated with
  | outOfMemory _ _ => exact ⟨h.counted, h.blocks, h.serials⟩
  | ready block p object hblock _ => exact h.create hblock clock s.ticks object
  | refused block p object hblock _ => exact (h.create hblock clock s.ticks object).gc

theorem get {o : ConnectionPoolOption} {clock : Clock} {env : CallEnv α} (h : p.Sound out) :
    (p.get o clock env).pool.Sound ((p.get o clock env).item.toList ++ out) := by
  cases hadmits : p.admits o with
  | false =>
      rw [get_refused clock env hadmits]
      exact ⟨h.counted, h.blocks, h.serials⟩
  | true =>
      have hexpire : (expire o clock p).pool.Sound out := by
        unfold expire
        split
        · exact sweep h
        · exact h
      have hscan := scan o clock hexpire
      rcases get_admitted clock env hadmits with
        ⟨item, s, hfound, hget⟩ | ⟨s, hfound, hget⟩
      · rw [hfound] at hscan
        rw [hget]
        exact hscan
      · rw [hfound] at hscan
        rw [hget]
        exact getNewInstance hscan

theorem put {o : ConnectionPoolOption} {now : UInt64} {isOk : Bool}
    (h : p.Sound (item :: out)) : (p.put o now item isOk).Sound out := by
  cases isOk with
  | false => exact h.gc
  | true =>
      have hstamp : p.Sound (item.stamp now :: out) :=
        h.congr (List.Perm.refl _) (List.Perm.refl _)
      have hpush := hstamp.pushFront
      rcases pushSection_cases o p (item.stamp now) with
        ⟨hsection, _⟩ | ⟨kept, evicted, hsplit, _, hsection⟩
      · simp only [ConnectionPool.put, hsection]
        exact hpush
      · simp only [ConnectionPool.put, hsection]
        have hpop := hpush.pop kept [] hsplit
        rw [List.append_nil] at hpop
        exact hpop.gc

end ConnectionPool.Sound

/-! ### Runs of one thread -/

/-- What can stop a run: the use of a connection that is not lent, or one of
the memory errors of the manager. -/
inductive Fault where
  | notLent
  | nullPointer
  | useAfterDelete
  | doubleDelete
  | freedArray
  | outOfBounds
  deriving DecidableEq, Repr

/-- A pool and the connections its borrowers hold. -/
structure World (α : Type*) where
  pool : ConnectionPool α := {}
  lent : List (ListItem α) := []
  deriving DecidableEq, Repr

/-- The calls have taken `now` clock readings so far. -/
structure TimedWorld (α : Type*) extends World α where
  now : Nat := 0
  deriving DecidableEq, Repr

/-- Calls of the pool, and what a borrower does to an object it holds. A lent
connection is named by its block. -/
inductive Call (α : Type*) where
  | get (env : CallEnv α)
  | put (block : Block) (isOk : Bool)
  | use (block : Block) (effect : α → α)

def isBlock (block : Block) (item : ListItem α) : Bool := item.block == block

def ListItem.update (item : ListItem α) (effect : α → α) : ListItem α :=
  { item with object := effect item.object }

def TimedWorld.step (o : ConnectionPoolOption) (clock : Clock) (w : TimedWorld α) :
    Call α → Except Fault (TimedWorld α)
  | .get env =>
      let r := w.pool.get o (clock.after w.now) env
      .ok { pool := r.pool, lent := r.item.toList ++ w.lent, now := w.now + r.ticks }
  | .put block isOk =>
      match takeFirst (isBlock block) w.lent with
      | none => .error .notLent
      | some (item, rest) =>
          .ok { pool := w.pool.put o (clock.read w.now) item isOk, lent := rest,
                now := if isOk then w.now + 1 else w.now }
  | .use block effect =>
      match takeFirst (isBlock block) w.lent with
      | none => .error .notLent
      | some (item, rest) => .ok { w with lent := item.update effect :: rest }

/-- The books of the pool agree with what is lent. -/
def World.Sound (w : World α) : Prop := w.pool.Sound w.lent

namespace TimedWorld

variable {o : ConnectionPoolOption} {clock : Clock} {w w' : TimedWorld α}

theorem step_put {block : Block} {isOk : Bool} (h : w.step o clock (.put block isOk) = .ok w') :
    ∃ item rest, takeFirst (isBlock block) w.lent = some (item, rest) ∧
      w' = { pool := w.pool.put o (clock.read w.now) item isOk, lent := rest,
             now := if isOk then w.now + 1 else w.now } := by
  cases htake : takeFirst (isBlock block) w.lent with
  | none => simp [step, htake] at h
  | some r =>
      obtain ⟨item, rest⟩ := r
      simp only [step, htake, Except.ok.injEq] at h
      exact ⟨item, rest, rfl, h.symm⟩

theorem step_use {block : Block} {effect : α → α}
    (h : w.step o clock (.use block effect) = .ok w') :
    ∃ item rest, takeFirst (isBlock block) w.lent = some (item, rest) ∧
      w' = { w with lent := item.update effect :: rest } := by
  cases htake : takeFirst (isBlock block) w.lent with
  | none => simp [step, htake] at h
  | some r =>
      obtain ⟨item, rest⟩ := r
      simp only [step, htake, Except.ok.injEq] at h
      exact ⟨item, rest, rfl, h.symm⟩

theorem step_sound {call : Call α} (h : w.Sound) (hstep : w.step o clock call = .ok w') :
    w'.Sound := by
  cases call with
  | get env =>
      cases hstep
      exact ConnectionPool.Sound.get h
  | put block isOk =>
      obtain ⟨item, rest, htake, rfl⟩ := step_put hstep
      exact ConnectionPool.Sound.put (h.perm (takeFirst_perm htake).symm)
  | use block effect =>
      obtain ⟨item, rest, htake, rfl⟩ := step_use hstep
      have hperm := h.perm (takeFirst_perm htake).symm
      exact hperm.congr (List.Perm.refl _) (List.Perm.refl _)

theorem run_sound {calls : List (Call α)} (h : w.Sound)
    (hrun : run (step o clock) w calls = .ok w') : w'.Sound :=
  run_invariant (I := fun w : TimedWorld α => w.Sound)
    (fun _ _ _ hs hstep => step_sound hs hstep) h hrun

theorem reachable_sound {calls : List (Call α)} (hrun : run (step o clock) {} calls = .ok w) :
    w.Sound :=
  run_sound (w := {}) ConnectionPool.Sound.new hrun

end TimedWorld

/-! ### Room in a capped pool -/

namespace ConnectionPool

/-- When nothing fails, a `Get` that passes the test returns a connection. -/
theorem get_isSome_of_admits {o : ConnectionPoolOption} {clock : Clock} {env : CallEnv α}
    {p : ConnectionPool α} (hadmits : p.admits o = true) (henv : env.Succeeds) :
    (p.get o clock env).item.isSome = true := by
  rcases get_admitted clock env hadmits with
    ⟨item, s, _, hget⟩ | ⟨s, _, hget⟩
  · rw [hget]
    rfl
  · rw [hget]
    have hcreated := getNewInstance_created clock env s
    generalize getNewInstance clock env s = r at hcreated ⊢
    cases hcreated with
    | outOfMemory _ hmalloc => simp [henv.1] at hmalloc
    | ready block p object _ _ => rfl
    | refused block p object _ hhandler =>
        obtain ⟨handler, hmem, hrun⟩ := hhandler
        have hok := henv.2 handler hmem
        simp [hrun] at hok

/-- A pool serves a request when nothing fails exactly if it passes the test. -/
theorem serves_iff_admits [Inhabited α] (o : ConnectionPoolOption) (p : ConnectionPool α) :
    (∀ (clock : Clock) (env : CallEnv α), env.Succeeds → (p.get o clock env).item.isSome = true) ↔
      p.admits o = true := by
  constructor
  · intro hserves
    by_contra hrefuse
    have hget := get_refused (fun _ => none) ⟨true, default, none⟩
      (Bool.eq_false_iff.mpr hrefuse)
    have hsome := hserves (fun _ => none) ⟨true, default, none⟩ ⟨rfl, by simp⟩
    rw [hget] at hsome
    cases hsome
  · intro hadmits clock env henv
    exact get_isSome_of_admits hadmits henv

end ConnectionPool

/-- In every state a run reaches, a pool with a cap that has lent fewer
connections than the cap serves the next request exactly if the idle
connections fit below the cap as well. -/
theorem TimedWorld.serves_iff_idle_fit [Inhabited α] {o : ConnectionPoolOption} {clock : Clock}
    {calls : List (Call α)} {w : TimedWorld α} (hcap : 0 < o.maxActive)
    (hrun : run (step o clock) {} calls = .ok w) :
    ((w.lent.length : Int) < o.maxActive →
      ∀ (clock : Clock) (env : CallEnv α), env.Succeeds →
        (w.pool.get o clock env).item.isSome = true) ↔
    ((w.lent.length : Int) < o.maxActive →
      w.pool.connInPool + w.lent.length < o.maxActive) := by
  have hcount := (reachable_sound hrun).counted
  rw [ConnectionPool.serves_iff_admits, ConnectionPool.admits_iff]
  unfold ConnectionPool.connInPool
  omega

/-- A moment of a clock that stands still. -/
def stillClock (ms : Nat) (h : ms < 2 ^ 53) : Clock := fun _ =>
  some ⟨ms / 1000, ms % 1000 * 1000, by omega, by omega⟩

theorem fiveSeconds_lt : 5000 < 2 ^ 53 := by decide

theorem TimedWorld.serves_iff_idle_fit_of_two :
    ∃ w : TimedWorld Unit,
      run (step { maxActive := 2 } (stillClock 5000 (by decide))) {}
        [.get ⟨true, (), none⟩, .put 0 true] = .ok w ∧
      (((w.lent.length : Int) < 2 → ∀ (clock : Clock) (env : CallEnv Unit), env.Succeeds →
          (w.pool.get { maxActive := 2 } clock env).item.isSome = true) ↔
        ((w.lent.length : Int) < 2 → w.pool.connInPool + w.lent.length < 2)) :=
  ⟨_, rfl, TimedWorld.serves_iff_idle_fit (o := { maxActive := 2 })
    (by decide)
    (rfl : run (step { maxActive := 2 } (stillClock 5000 (by decide))) {}
      [.get ⟨true, (), none⟩, .put 0 true] = .ok _)⟩

/-- One connection allowed, borrowed and returned: nothing is lent, and yet
the next `Get` returns NULL although neither `malloc` nor the handler fails. -/
theorem TimedWorld.returned_connection_refused :
    ∃ w : TimedWorld Unit,
      run (step { maxActive := 1 } (stillClock 5000 (by decide))) {}
        [.get ⟨true, (), none⟩, .put 0 true] = .ok w ∧
      w.lent = [] ∧ ((w.lent.length : Int) < 1) ∧
      (⟨true, (), none⟩ : CallEnv Unit).Succeeds ∧
      (w.pool.get { maxActive := 1 } (stillClock 5000 (by decide)) ⟨true, (), none⟩).item = none :=
  ⟨_, rfl, rfl, by decide, ⟨rfl, by simp⟩, rfl⟩

end CloRedis
