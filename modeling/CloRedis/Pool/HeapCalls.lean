import CloRedis.Pool.Heap

/-!
From every memory that represents a pool, `Get` and `Put` follow no pointer
that leads nowhere, their loops leave, and the memory they end with represents
what the calls make of the pool. So the runs in memory are the runs of the
calls.
-/

namespace CloRedis

open Library

variable {α : Type*}

/-! ### The loops of `Get` -/

/-- The same place in a loop. -/
structure HeapProgress.Represents (t : HeapProgress α) (s : Progress α) (out : List (ListItem α)) :
    Prop where
  pool : t.pool.Represents s.pool out
  ticks : t.ticks = s.ticks

namespace HeapPool

variable {o : ConnectionPoolOption} {clock : Clock} {out : List (ListItem α)}
  {s s' : Progress α} {t : HeapProgress α}

theorem sweepBody_next (hrep : t.Represents s out)
    (hbody : ConnectionPool.sweepBody o clock s = .inl s') :
    ∃ t', attempt (sweepBody o clock) t = .inl t' ∧ t'.Represents s' out := by
  obtain ⟨front, item, hidle, hexpired, rfl⟩ := ConnectionPool.sweepBody_next hbody
  have hback : t.pool.idle.back = some item.block := by
    rw [hrep.pool.back_eq, hidle, List.getLast?_concat, Option.map_some]
  have hmem : item ∈ s.pool.idle ++ out := by simp [hidle]
  obtain ⟨node, hlookup, hnode⟩ := hrep.pool.lookup hmem
  obtain ⟨idle', hpop, hpopped⟩ := hrep.pool.popBack hidle
  obtain ⟨pool', hgc, hpool'⟩ := hpopped.gc
  have hturn : sweepBody o clock t = .ok (.inl ⟨pool', t.ticks + 1⟩) := by
    unfold sweepBody
    rw [hback]
    dsimp only
    rw [Memory.deref_some hlookup, ok_do, Represents.timedOut_eq hnode, hrep.ticks, hexpired,
      if_pos rfl, hpop, ok_do, hgc, ok_do]
  exact ⟨_, attempt_next hturn, hpool', congrArg (· + 1) hrep.ticks⟩

theorem sweepBody_stop {r : Progress α} (hrep : t.Represents s out)
    (hbody : ConnectionPool.sweepBody o clock s = .inr r) :
    ∃ t', attempt (sweepBody o clock) t = .inr (.ok t') ∧ t'.Represents r out := by
  rcases ConnectionPool.sweepBody_stop hbody with ⟨hidle, rfl⟩ | ⟨last, hlast, hfresh, rfl⟩
  · have hback : t.pool.idle.back = none := by
      rw [hrep.pool.back_eq, hidle]
      rfl
    have hturn : sweepBody o clock t = .ok (.inr t) := by
      unfold sweepBody
      rw [hback]
    exact ⟨t, attempt_stop hturn, hrep⟩
  · have hback : t.pool.idle.back = some last.block := by
      rw [hrep.pool.back_eq, hlast, Option.map_some]
    have hmem : last ∈ s.pool.idle ++ out := List.mem_append_left _ (List.mem_of_getLast? hlast)
    obtain ⟨node, hlookup, hnode⟩ := hrep.pool.lookup hmem
    have hturn : sweepBody o clock t = .ok (.inr { t with ticks := t.ticks + 1 }) := by
      unfold sweepBody
      rw [hback]
      dsimp only
      rw [Memory.deref_some hlookup, ok_do, Represents.timedOut_eq hnode, hrep.ticks, hfresh]
      rfl
    exact ⟨_, attempt_stop hturn, hrep.pool, congrArg (· + 1) hrep.ticks⟩

/-- The first loop in memory leaves as the loop of the calls does. -/
theorem sweep_refines (o : ConnectionPoolOption) (clock : Clock) (hrep : t.Represents s out) :
    ∃ t', sweep o clock t = .ok t' ∧ Loop (attempt (sweepBody o clock)) t (.ok t') ∧
      t'.Represents (ConnectionPool.sweep o clock s) out := by
  have hfuel : s.pool.idle.length < s.pool.idle.length + 1 := Nat.lt_succ_self _
  have hstop : ∀ s r t, HeapProgress.Represents t s out →
      ConnectionPool.sweepBody o clock s = .inr r →
      ∃ x, attempt (sweepBody o clock) t = .inr x ∧
        ∃ t', x = .ok t' ∧ HeapProgress.Represents t' r out := by
    intro s r t hrep hbody
    obtain ⟨t', hturn, hrep'⟩ := sweepBody_stop hrep hbody
    exact ⟨_, hturn, t', rfl, hrep'⟩
  obtain ⟨hloop, t', hsweep, hrep'⟩ := runLoop_simulates id .ok (fun s => s.pool.idle.length)
    (fun _ _ hbody => ConnectionPool.sweepBody_shortens hbody)
    (fun _ _ _ hrep hbody => sweepBody_next hrep hbody) hstop hfuel hrep
  unfold sweep
  rw [hrep.pool.count_eq, Int.toNat_natCast]
  rw [hsweep] at hloop
  exact ⟨t', hsweep, hloop, hrep'⟩

theorem scanBody_next (hrep : t.Represents s out)
    (hbody : ConnectionPool.scanBody o clock s = .inl s') :
    ∃ t', attempt (scanBody o clock) t = .inl t' ∧ t'.Represents s' out := by
  obtain ⟨item, behind, hidle, hlife, rfl⟩ := ConnectionPool.scanBody_next hbody
  have hfront : t.pool.idle.front = some item.block := by
    rw [hrep.pool.front_eq, hidle, List.head?_cons, Option.map_some]
  obtain ⟨idle', hpop, hpopped⟩ := hrep.pool.popFront hidle
  obtain ⟨node, hlookup, hnode⟩ := hpopped.lookup (List.mem_append_right _ (List.mem_cons_self ..))
  have hderef : idle'.nodes.deref (some item.block) = .ok node := Memory.deref_some hlookup
  obtain ⟨pool', hgc, hpool'⟩ := hpopped.gc
  have hturn : scanBody o clock t =
      .ok (.inl ⟨pool', t.ticks + ConnectionPool.lifeReads o⟩) := by
    unfold scanBody
    rw [hfront]
    dsimp only
    rw [hpop, ok_do, hderef, ok_do, Represents.withinLifeTime_eq hnode, hrep.ticks, hlife,
      if_neg Bool.false_ne_true, hgc, ok_do]
  exact ⟨_, attempt_next hturn, hpool', congrArg (· + ConnectionPool.lifeReads o) hrep.ticks⟩

/-- The second loop hands out the block of the connection it found. -/
theorem scanBody_stop {r : Option (ListItem α) × Progress α} (hrep : t.Represents s out)
    (hbody : ConnectionPool.scanBody o clock s = .inr r) :
    ∃ t', attempt (scanBody o clock) t = .inr (.ok (r.1.map (·.block), t')) ∧
      t'.Represents r.2 (r.1.toList ++ out) := by
  obtain ⟨found, r⟩ := r
  rcases ConnectionPool.scanBody_stop hbody with
    ⟨hidle, rfl, rfl⟩ | ⟨item, behind, hidle, rfl, hlife, rfl⟩
  · have hfront : t.pool.idle.front = none := by
      rw [hrep.pool.front_eq, hidle]
      rfl
    have hturn : scanBody o clock t = .ok (.inr (none, t)) := by
      unfold scanBody
      rw [hfront]
    exact ⟨t, attempt_stop hturn, hrep⟩
  · have hfront : t.pool.idle.front = some item.block := by
      rw [hrep.pool.front_eq, hidle, List.head?_cons, Option.map_some]
    obtain ⟨idle', hpop, hpopped⟩ := hrep.pool.popFront hidle
    obtain ⟨node, hlookup, hnode⟩ :=
      hpopped.lookup (List.mem_append_right _ (List.mem_cons_self ..))
    have hderef : idle'.nodes.deref (some item.block) = .ok node := Memory.deref_some hlookup
    have hturn : scanBody o clock t = .ok (.inr (some item.block,
        ⟨{ t.pool with idle := idle' }, t.ticks + ConnectionPool.lifeReads o⟩)) := by
      unfold scanBody
      rw [hfront]
      dsimp only
      rw [hpop, ok_do, hderef, ok_do, Represents.withinLifeTime_eq hnode, hrep.ticks, hlife,
        if_pos rfl]
    exact ⟨_, attempt_stop hturn, hpopped, congrArg (· + ConnectionPool.lifeReads o) hrep.ticks⟩

theorem scan_refines (o : ConnectionPoolOption) (clock : Clock) (hrep : t.Represents s out) :
    ∃ t', scan o clock t = .ok ((ConnectionPool.scan o clock s).1.map (·.block), t') ∧
      Loop (attempt (scanBody o clock)) t
        (.ok ((ConnectionPool.scan o clock s).1.map (·.block), t')) ∧
      t'.Represents (ConnectionPool.scan o clock s).2
        ((ConnectionPool.scan o clock s).1.toList ++ out) := by
  have hfuel : s.pool.idle.length < s.pool.idle.length + 1 := Nat.lt_succ_self _
  have hstop : ∀ s r t, HeapProgress.Represents t s out →
      ConnectionPool.scanBody o clock s = .inr r →
      ∃ x, attempt (scanBody o clock) t = .inr x ∧
        ∃ t', x = .ok (r.1.map (·.block), t') ∧
          HeapProgress.Represents t' r.2 (r.1.toList ++ out) := by
    intro s r t hrep hbody
    obtain ⟨t', hturn, hrep'⟩ := scanBody_stop hrep hbody
    exact ⟨_, hturn, t', rfl, hrep'⟩
  obtain ⟨hloop, t', hscan, hrep'⟩ := runLoop_simulates (fun s => (none, s))
    (fun s => .ok (none, s)) (fun s => s.pool.idle.length)
    (fun _ _ hbody => ConnectionPool.scanBody_shortens hbody)
    (fun _ _ _ hrep hbody => scanBody_next hrep hbody) hstop hfuel hrep
  unfold scan
  rw [hrep.pool.count_eq, Int.toNat_natCast]
  rw [hscan] at hloop
  exact ⟨t', hscan, hloop, hrep'⟩

/-! ### The calls -/

/-- A call of `Get` ended alike. -/
structure GetRefines (x : HeapGetResult α) (r : GetResult α) (out : List (ListItem α)) : Prop where
  pool : x.pool.Represents r.pool (r.item.toList ++ out)
  item : x.item = r.item.map (·.block)
  ticks : x.ticks = r.ticks

/-- From a block on, `GetNewInstance` does the same in memory. -/
theorem build_refines {env : CallEnv α} {p : ConnectionPool α} {h : HeapPool α} {block : Block}
    (hrep : t.Represents s out) (hblock : s.pool.Obtains block p)
    (hidle : h.idle = t.pool.idle) (hmemPool : h.memPool = p.memPool)
    (hactive : h.activeCnt = p.activeCnt) (hstats : h.stats = p.stats)
    (hmallocs : h.mallocs = p.mallocs)
    (hallocated : ∀ b, b = block ∨ b < t.pool.mallocs ↔ b < h.mallocs) :
    ∃ x, build clock env ⟨h, t.ticks⟩ block = .ok x ∧
      GetRefines x (ConnectionPool.build clock env ⟨p, s.ticks⟩ block) out := by
  -- the pool after the placement news, whatever object they leave
  have hnew : ∀ object, (({ h with activeCnt := h.activeCnt + 1 } : HeapPool α).place block
      (.new clock t.ticks object)).Represents
      { p with activeCnt := p.activeCnt + 1, constructed := p.constructed + 1 }
      (p.newItem clock s.ticks block object :: out) := by
    intro object
    have hsound := hrep.pool.sound.create hblock clock s.ticks object
    have hkept : p.idle = s.pool.idle := by
      cases hblock <;> rfl
    have hnode : (ListNode.new clock t.ticks object).unlinked =
        (p.newItem clock s.ticks block object).node := by
      rw [hrep.ticks]
      rfl
    have hplace : (({ h with activeCnt := h.activeCnt + 1 } : HeapPool α).place block
        (.new clock t.ticks object)).idle = { t.pool.idle with
          nodes := t.pool.nodes.insert block (.new clock t.ticks object) } := by
      unfold place HeapPool.nodes
      rw [hidle]
    have hactive' : h.activeCnt + 1 = p.activeCnt + 1 := congrArg (· + 1) hactive
    exact hrep.pool.insert (fun _ hx => hx) hsound hnode hkept hplace hallocated hmemPool hactive'
      hstats hmallocs
  unfold build ConnectionPool.build
  cases hinit : env.init with
  | none => exact ⟨_, rfl, hnew env.fresh, rfl, congrArg (· + 2) hrep.ticks⟩
  | some handler =>
      dsimp only [ConnectionPool.construct]
      cases hrun : handler env.fresh with
      | mk ok object =>
          cases ok with
          | true => exact ⟨_, rfl, hnew object, rfl, congrArg (· + 2) hrep.ticks⟩
          | false =>
              obtain ⟨pool', hgc, hpool'⟩ := (hnew object).gc
              have hfail : HeapPool.gc _ block = .ok pool' := hgc
              dsimp only
              rw [if_neg Bool.false_ne_true, hfail, ok_do]
              exact ⟨_, rfl, hpool', rfl, congrArg (· + 2) hrep.ticks⟩

theorem getNewInstance_refines {env : CallEnv α} (hrep : t.Represents s out) :
    ∃ x, getNewInstance clock env t = .ok x ∧
      GetRefines x (ConnectionPool.getNewInstance clock env s) out := by
  have hmallocs := hrep.pool.mallocs
  unfold getNewInstance
  split
  · rename_i block rest hmemPool
    have hpool : s.pool.memPool = block :: rest := hrep.pool.memPool.symm.trans hmemPool
    have htake : s.pool.takeBlock = (some block, { s.pool with memPool := rest }) := by
      simp only [ConnectionPool.takeBlock, hpool]
    have hblock : block < t.pool.mallocs := by
      have hmem : block ∈ s.pool.memPool := hpool ▸ List.mem_cons_self ..
      rw [hmallocs]
      exact List.mem_range.mp (hrep.pool.sound.blocks.subset (List.mem_append_right _ hmem))
    unfold ConnectionPool.getNewInstance
    rw [htake]
    exact build_refines hrep (.recycled block rest hpool) rfl rfl hrep.pool.activeCnt
      hrep.pool.stats hmallocs
      fun b => ⟨fun hor => hor.elim (fun heq => heq ▸ hblock) id, Or.inr⟩
  · rename_i hmemPool
    have hpool : s.pool.memPool = [] := hrep.pool.memPool.symm.trans hmemPool
    have htake : s.pool.takeBlock = (none, s.pool) := by
      simp only [ConnectionPool.takeBlock, hpool]
    unfold ConnectionPool.getNewInstance
    rw [htake]
    dsimp only
    cases env.malloc with
    | false =>
        rw [if_neg Bool.false_ne_true, if_neg Bool.false_ne_true]
        refine ⟨_, rfl, ?_, rfl, hrep.ticks⟩
        exact hrep.pool.counting fun stats => { stats with mallocFail := stats.mallocFail + 1 }
    | true =>
        have hfresh : ∀ b, b = s.pool.mallocs ∨ b < t.pool.mallocs ↔ b < s.pool.mallocs + 1 := by
          intro b
          omega
        rw [if_pos rfl, if_pos rfl, hmallocs]
        exact build_refines hrep (.allocated hpool) rfl hrep.pool.memPool hrep.pool.activeCnt
          hrep.pool.stats rfl hfresh

theorem expire_refines (o : ConnectionPoolOption) (clock : Clock) {h : HeapPool α}
    {p : ConnectionPool α} (hrep : h.Represents p out) :
    ∃ t, expire o clock h = .ok t ∧ t.Represents (ConnectionPool.expire o clock p) out := by
  have hstart : HeapProgress.Represents ⟨h, 0⟩ ⟨p, 0⟩ out := ⟨hrep, rfl⟩
  unfold expire ConnectionPool.expire
  split
  · obtain ⟨t, hsweep, _, hswept⟩ := sweep_refines o clock hstart
    exact ⟨t, hsweep, hswept⟩
  · exact ⟨_, rfl, hstart⟩

theorem admits_eq {h : HeapPool α} {p : ConnectionPool α} (hrep : h.Represents p out) :
    h.admits o = p.admits o := by
  unfold admits ConnectionPool.admits
  rw [hrep.activeCnt]

theorem get_refines (o : ConnectionPoolOption) (clock : Clock) (env : CallEnv α) {h : HeapPool α}
    {p : ConnectionPool α} (hrep : h.Represents p out) :
    ∃ x, h.get o clock env = .ok x ∧ GetRefines x (p.get o clock env) out := by
  unfold get
  rw [admits_eq hrep]
  cases hadmits : p.admits o with
  | false =>
      rw [ConnectionPool.get_refused clock env hadmits]
      refine ⟨_, rfl, ?_, rfl, rfl⟩
      exact hrep.counting fun stats => { stats with overloadError := stats.overloadError + 1 }
  | true =>
      obtain ⟨t, hexpire, hswept⟩ := expire_refines o clock hrep
      obtain ⟨t', hscan, _, hscanned⟩ := scan_refines o clock hswept
      rw [hexpire]
      simp only [Bool.not_true, Bool.false_eq_true, if_false, ok_do, hscan]
      rcases ConnectionPool.get_admitted clock env hadmits with
        ⟨item, s, hfound, hget⟩ | ⟨s, hfound, hget⟩
      · rw [hfound] at hscanned
        rw [hget, hfound]
        exact ⟨_, rfl, hscanned.pool, rfl, hscanned.ticks⟩
      · rw [hfound] at hscanned
        rw [hget, hfound]
        exact getNewInstance_refines hscanned

theorem put_refines (o : ConnectionPoolOption) (now : UInt64) (isOk : Bool) {h : HeapPool α}
    {p : ConnectionPool α} {item : ListItem α} (hrep : h.Represents p (item :: out)) :
    ∃ h', h.put o now item.block isOk = .ok h' ∧ h'.Represents (p.put o now item isOk) out := by
  cases isOk with
  | false => exact hrep.gc
  | true =>
      have hfield : ∀ node : ListNode α, node.unlinked = item.node →
          ({ node with activeTime := now.toInt64 } : ListNode α).unlinked =
            (item.stamp now).node := by
        intro node hnode
        exact congrArg (fun node : ListNode α => { node with activeTime := now.toInt64 }) hnode
      have hsame : (item.stamp now).block = item.block ∧ (item.stamp now).serial = item.serial :=
        ⟨rfl, rfl⟩
      obtain ⟨nodes, hassign, hstamped⟩ := hrep.assign hsame.1 hsame.2 hfield
      obtain ⟨idle', hpush, hpushed⟩ := hstamped.pushFront
      have hpush' : (h.withNodes nodes).idle.pushFront item.block = .ok idle' := hpush
      have hcount : idle'.count = (p.idle.length + 1 : Nat) := hpushed.count_eq
      rw [Nat.cast_add, Nat.cast_one] at hcount
      unfold put ConnectionPool.put
      simp only [Bool.not_true, Bool.false_eq_true, if_false, hassign, hpush', ok_do, hcount]
      rcases ConnectionPool.pushSection_cases o p (item.stamp now) with
        ⟨hsection, hfits⟩ | ⟨kept, evicted, hsplit, hover, hsection⟩
      · rw [if_neg hfits, hsection]
        exact ⟨_, rfl, hpushed⟩
      · obtain ⟨popped, hpop, hkept⟩ := hpushed.popBack hsplit
        obtain ⟨h', hgc, hrep'⟩ := hkept.gc
        have hback : idle'.back = some evicted.block := by
          have hlast : idle'.back = (item.stamp now :: p.idle).getLast?.map (·.block) :=
            hpushed.back_eq
          rw [hlast, hsplit, List.getLast?_concat, Option.map_some]
        rw [if_pos hover, hsection, hpop, ok_do, hback]
        exact ⟨h', hgc, hrep'⟩

end HeapPool

/-! ### Runs -/

/-- The pool in memory and the blocks its borrowers hold. -/
structure HeapWorld (α : Type*) where
  pool : HeapPool α := {}
  lent : List Block := []
  now : Nat := 0

namespace HeapWorld

def step (o : ConnectionPoolOption) (clock : Clock) (w : HeapWorld α) :
    Call α → Except Fault (HeapWorld α)
  | .get env => do
      let r ← w.pool.get o (clock.after w.now) env
      .ok { pool := r.pool, lent := r.item.toList ++ w.lent, now := w.now + r.ticks }
  | .put block isOk =>
      if block ∈ w.lent then do
        let pool ← w.pool.put o (clock.read w.now) block isOk
        .ok { pool := pool, lent := w.lent.erase block, now := if isOk then w.now + 1 else w.now }
      else .error .notLent
  | .use block effect =>
      if block ∈ w.lent then do
        let nodes ← w.pool.nodes.assign
          (fun node => { node with object := effect node.object }) (some block)
        .ok { w with pool := w.pool.withNodes nodes }
      else .error .notLent

/-- The memory holds the pool, and the borrowers hold its lent connections. -/
structure Represents (w : HeapWorld α) (v : TimedWorld α) : Prop where
  pool : w.pool.Represents v.pool v.lent
  lent : w.lent.Perm (v.lent.map (·.block))
  now : w.now = v.now

variable {o : ConnectionPoolOption} {clock : Clock} {w w' : HeapWorld α} {v v' : TimedWorld α}
  {call : Call α} {calls : List (Call α)} {block : Block}

theorem Represents.new : ({} : HeapWorld α).Represents {} :=
  ⟨HeapPool.Represents.new, List.Perm.refl _, rfl⟩

/-- A block that is lent is the block of a lent connection. -/
theorem Represents.taken (hrep : w.Represents v) (hlent : block ∈ w.lent) :
    ∃ item rest, takeFirst (isBlock block) v.lent = some (item, rest) ∧ item.block = block ∧
      w.pool.Represents v.pool (item :: rest) ∧
      w.lent.Perm (block :: rest.map (·.block)) := by
  obtain ⟨item, hitem, hblock⟩ := List.mem_map.mp (hrep.lent.subset hlent)
  have hfound : isBlock block item = true := by
    unfold isBlock
    rw [hblock, beq_self_eq_true]
  obtain ⟨item', rest, htake⟩ := takeFirst_exists hitem hfound
  have hsplit := (takeFirst_split htake).1
  unfold isBlock at hsplit
  have hperm := takeFirst_perm htake
  have hblock' : item'.block = block := beq_iff_eq.mp hsplit
  refine ⟨item', rest, htake, hblock', hrep.pool.perm hperm, ?_⟩
  rw [← hblock']
  exact hrep.lent.trans (hperm.map _)

theorem Represents.untaken (hrep : w.Represents v) (hlent : block ∉ w.lent) :
    takeFirst (isBlock block) v.lent = none := by
  cases htake : takeFirst (isBlock block) v.lent with
  | none => rfl
  | some r =>
      obtain ⟨item, rest⟩ := r
      have hsplit := (takeFirst_split htake).1
      unfold isBlock at hsplit
      have hmem : item ∈ v.lent := (takeFirst_perm htake).mem_iff.mpr (List.mem_cons_self ..)
      have hblock : item.block = block := beq_iff_eq.mp hsplit
      exact absurd (hrep.lent.mem_iff.mpr (List.mem_map.mpr ⟨item, hmem, hblock⟩)) hlent

theorem step_get (hrep : w.Represents v) (env : CallEnv α) :
    ∃ w' v', w.step o clock (.get env) = .ok w' ∧ v.step o clock (.get env) = .ok v' ∧
      w'.Represents v' := by
  obtain ⟨x, hget, hresult⟩ := HeapPool.get_refines o (clock.after w.now) env hrep.pool
  have hitem := hresult.item
  have hticks := hresult.ticks
  have hpool := hresult.pool
  have hstep : w.step o clock (.get env) =
      .ok { pool := x.pool, lent := x.item.toList ++ w.lent, now := w.now + x.ticks } := by
    simp only [step, hget, ok_do]
  rw [hrep.now] at hitem hticks hpool
  refine ⟨_, _, hstep, rfl, ⟨hpool, ?_, ?_⟩⟩
  · dsimp only
    rw [hitem, Option.toList_map, List.map_append]
    exact hrep.lent.append_left _
  · dsimp only
    rw [hticks, hrep.now]

theorem step_put (hrep : w.Represents v) (hlent : block ∈ w.lent) (isOk : Bool) :
    ∃ w' v', w.step o clock (.put block isOk) = .ok w' ∧ v.step o clock (.put block isOk) = .ok v' ∧
      w'.Represents v' := by
  obtain ⟨item, rest, htake, rfl, hpool, hperm⟩ := hrep.taken hlent
  obtain ⟨h', hput, hrep'⟩ := HeapPool.put_refines o (clock.read v.now) isOk hpool
  have hstep : w.step o clock (.put item.block isOk) =
      .ok { pool := h', lent := w.lent.erase item.block,
            now := if isOk then w.now + 1 else w.now } := by
    simp only [step, if_pos hlent, hrep.now, hput, ok_do]
  have hcalls : v.step o clock (.put item.block isOk) =
      .ok { pool := v.pool.put o (clock.read v.now) item isOk, lent := rest,
            now := if isOk then v.now + 1 else v.now } := by
    simp only [TimedWorld.step, htake]
  refine ⟨_, _, hstep, hcalls, ⟨hrep', ?_, ?_⟩⟩
  · have herase := hperm.erase item.block
    rwa [List.erase_cons_head] at herase
  · dsimp only
    rw [hrep.now]

theorem step_use (hrep : w.Represents v) (hlent : block ∈ w.lent) (effect : α → α) :
    ∃ w' v', w.step o clock (.use block effect) = .ok w' ∧
      v.step o clock (.use block effect) = .ok v' ∧ w'.Represents v' := by
  obtain ⟨item, rest, htake, rfl, hpool, hperm⟩ := hrep.taken hlent
  have hsame : (item.update effect).block = item.block ∧
      (item.update effect).serial = item.serial := ⟨rfl, rfl⟩
  have hfield : ∀ node : ListNode α, node.unlinked = item.node →
      ({ node with object := effect node.object } : ListNode α).unlinked =
        (item.update effect).node := by
    intro node hnode
    exact congrArg (fun node : ListNode α => { node with object := effect node.object }) hnode
  obtain ⟨nodes, hassign, hrep'⟩ := hpool.assign hsame.1 hsame.2 hfield
  have hstep : w.step o clock (.use item.block effect) =
      .ok { w with pool := w.pool.withNodes nodes } := by
    simp only [step, if_pos hlent, hassign, ok_do]
  have hcalls : v.step o clock (.use item.block effect) =
      .ok { v with lent := item.update effect :: rest } := by
    simp only [TimedWorld.step, htake]
  exact ⟨_, _, hstep, hcalls, ⟨hrep', hperm, hrep.now⟩⟩

/-- A call in memory does what the call does, and fails only on a connection
that is not lent: no pointer it follows leads nowhere. -/
theorem step_refines (hrep : w.Represents v) (call : Call α) :
    (∃ w' v', w.step o clock call = .ok w' ∧ v.step o clock call = .ok v' ∧ w'.Represents v') ∨
      w.step o clock call = .error .notLent ∧ v.step o clock call = .error .notLent := by
  cases call with
  | get env => exact Or.inl (step_get hrep env)
  | put block isOk =>
      by_cases hlent : block ∈ w.lent
      · exact Or.inl (step_put hrep hlent isOk)
      · right
        simp only [step, TimedWorld.step, if_neg hlent, hrep.untaken hlent, and_self]
  | use block effect =>
      by_cases hlent : block ∈ w.lent
      · exact Or.inl (step_use hrep hlent effect)
      · right
        simp only [step, TimedWorld.step, if_neg hlent, hrep.untaken hlent, and_self]

/-- Every run in memory is a run of the calls. -/
theorem run_refines (hrep : w.Represents v) (hrun : run (step o clock) w calls = .ok w') :
    ∃ v', run (TimedWorld.step o clock) v calls = .ok v' ∧ w'.Represents v' := by
  induction calls generalizing w v with
  | nil =>
      cases hrun
      exact ⟨v, rfl, hrep⟩
  | cons call calls ih =>
      obtain ⟨w₁, hcall, hrest⟩ := run_cons_ok.mp hrun
      rcases step_refines hrep call with ⟨w₂, v₁, hstep, hcalls, hrep₁⟩ | ⟨hfail, _⟩
      · cases hcall.symm.trans hstep
        obtain ⟨v', hrun', hrep'⟩ := ih hrep₁ hrest
        exact ⟨v', run_cons_ok.mpr ⟨v₁, hcalls, hrun'⟩, hrep'⟩
      · cases hcall.symm.trans hfail

theorem reachable_represents (hrun : run (step o clock) {} calls = .ok w) :
    ∃ v : TimedWorld α, run (TimedWorld.step o clock) {} calls = .ok v ∧ w.Represents v :=
  run_refines .new hrun

/-- A run in memory stops only where a connection is used that is not lent. -/
theorem run_error (hrep : w.Represents v) {fault : Fault}
    (hrun : run (step o clock) w calls = .error fault) : fault = .notLent := by
  induction calls generalizing w v with
  | nil => cases hrun
  | cons call calls ih =>
      rw [run_cons] at hrun
      rcases step_refines hrep call with ⟨w₁, v₁, hstep, _, hrep₁⟩ | ⟨hfail, _⟩
      · rw [hstep] at hrun
        exact ih hrep₁ hrun
      · rw [hfail] at hrun
        exact (Except.error.inj hrun).symm

/-- A connection that is put back twice. -/
theorem run_error_of_second_put :
    ∃ fault, run (step {} (stillClock 5000 fiveSeconds_lt)) ({} : HeapWorld Unit)
        [.get ⟨true, (), none⟩, .put 0 true, .put 0 true] = .error fault ∧ fault = .notLent := by
  obtain ⟨fault, hrun⟩ : ∃ fault, run (step {} (stillClock 5000 fiveSeconds_lt))
      ({} : HeapWorld Unit) [.get ⟨true, (), none⟩, .put 0 true, .put 0 true] = .error fault :=
    ⟨_, rfl⟩
  exact ⟨fault, hrun, run_error .new hrun⟩

end HeapWorld

end CloRedis
