import CloRedis.Library.DoublyLinked
import CloRedis.Pool.MaxIdle

/-!
`IdleList` with its pointers. The sections of the pool work on the sequence of
the idle nodes; here the same pushes and pops are carried out on `front`,
`back`, `count` and the fields `next` and `prev` of the nodes. In every
interleaving the pointers hold the sequence, and none that is followed is NULL.
-/

namespace CloRedis

open Library Function

variable {α T : Type*}

/-- `next` and `prev` are fields of the nodes. -/
structure IdleList where
  count : Int := 0
  front : Option Block := none
  back : Option Block := none
  next : Block → Option Block := fun _ => none
  prev : Block → Option Block := fun _ => none

namespace IdleList

def pushFront (l : IdleList) (item : Block) : Except Fault IdleList :=
  let l := { l with next := update l.next item l.front, prev := update l.prev item none }
  if l.count = 0 then
    .ok { l with back := some item, front := some item, count := l.count + 1 }
  else
    match l.front with
    | none => .error .nullPointer
    | some first =>
        .ok { l with
          prev := update l.prev first (some item)
          front := some item, count := l.count + 1 }

/-- `item->next = NULL; item->prev = NULL;` -/
def unlink (l : IdleList) (item : Block) : IdleList :=
  { l with next := update l.next item none, prev := update l.prev item none }

def popFront (l : IdleList) : Except Fault IdleList :=
  if l.count = 0 then .ok l
  else
    let l := { l with count := l.count - 1 }
    match l.front with
    | none => .error .nullPointer
    | some item =>
        if l.count = 0 then .ok ({ l with front := none, back := none }.unlink item)
        else
          match l.next item with
          | none => .error .nullPointer
          | some second =>
              .ok ({ l with prev := update l.prev second none, front := some second }.unlink item)

def popBack (l : IdleList) : Except Fault IdleList :=
  if l.count = 0 then .ok l
  else
    let l := { l with count := l.count - 1 }
    match l.back with
    | none => .error .nullPointer
    | some item =>
        if l.count = 0 then .ok ({ l with front := none, back := none }.unlink item)
        else
          match l.prev item with
          | none => .error .nullPointer
          | some second =>
              .ok ({ l with next := update l.next second none, back := some second }.unlink item)

/-- The list consists of these nodes, front first. -/
structure Holds (l : IdleList) (items : List Block) : Prop where
  count : l.count = items.length
  front : l.front = items.head?
  back : l.back = items.getLast?
  links : Doubly l.next l.prev items

theorem Holds.new : ({} : IdleList).Holds [] :=
  ⟨rfl, rfl, rfl, Doubly.nil _ _⟩

variable {l : IdleList} {items : List Block} {item : Block}

theorem pushFront_holds (h : l.Holds items) (hnew : item ∉ items) :
    ∃ l', l.pushFront item = .ok l' ∧ l'.Holds (item :: items) := by
  have hcount := h.count
  have hfront := h.front
  unfold pushFront
  dsimp only
  cases items with
  | nil =>
      have hzero : l.count = 0 := hcount
      rw [if_pos hzero]
      refine ⟨_, rfl, congrArg (· + 1) hcount, rfl, rfl, ?_⟩
      apply Doubly.single
      · dsimp only
        rw [update_self, hfront]
        rfl
      · exact update_self ..
  | cons first items =>
      have hpos : l.count ≠ 0 := by
        simp only [List.length_cons] at hcount
        omega
      rw [if_neg hpos, hfront]
      refine ⟨_, rfl, ?_, rfl, ?_, ?_⟩
      · dsimp only
        rw [hcount]
        simp
      · exact h.back.trans (List.getLast?_cons_cons).symm
      · exact (h.links.update hnew _ _).push rfl hnew (update_self ..) (update_self ..)

theorem popFront_holds (h : l.Holds items) :
    ∃ l', l.popFront = .ok l' ∧ l'.Holds items.tail := by
  have hcount := h.count
  have hfront := h.front
  unfold popFront
  dsimp only
  match items with
  | [] =>
      have hzero : l.count = 0 := hcount
      rw [if_pos hzero]
      exact ⟨l, rfl, h⟩
  | [first] =>
      have hone : l.count = 1 := hcount
      rw [hfront, hone]
      exact ⟨_, rfl, rfl, rfl, rfl, Doubly.nil _ _⟩
  | first :: second :: items =>
      simp only [List.length_cons] at hcount
      have hpos : l.count ≠ 0 := by omega
      have hmore : l.count - 1 ≠ 0 := by omega
      have hgone := (List.nodup_cons.mp h.links.nodup).1
      rw [if_neg hpos, hfront]
      dsimp only [List.head?_cons]
      rw [if_neg hmore, h.links.forth.1]
      refine ⟨_, rfl, ?_, rfl, ?_, ?_⟩
      · simp only [unlink, List.tail_cons, List.length_cons]
        omega
      · exact h.back.trans List.getLast?_cons_cons
      · exact (h.links.pop rfl).update hgone _ _

/-- The list seen from its other end. -/
def flip (l : IdleList) : IdleList :=
  { count := l.count, front := l.back, back := l.front, next := l.prev, prev := l.next }

theorem Holds.flip (h : l.Holds items) : l.flip.Holds items.reverse where
  count := by
    rw [List.length_reverse]
    exact h.count
  front := h.back.trans (List.head?_reverse).symm
  back := h.front.trans (List.getLast?_reverse).symm
  links := h.links.symm

/-- `PopBack` is `PopFront` from the other end. -/
theorem popBack_eq (l : IdleList) : l.popBack = l.flip.popFront.map IdleList.flip := by
  obtain ⟨count, front, back, next, prev⟩ := l
  change popBack ⟨count, front, back, next, prev⟩ =
    (popFront ⟨count, back, front, prev, next⟩).map IdleList.flip
  unfold popBack popFront
  dsimp only
  by_cases hzero : count = 0
  · rw [if_pos hzero, if_pos hzero]
    rfl
  · rw [if_neg hzero, if_neg hzero]
    cases back with
    | none => rfl
    | some item =>
        dsimp only
        by_cases hone : count - 1 = 0
        · rw [if_pos hone, if_pos hone]
          rfl
        · rw [if_neg hone, if_neg hone]
          cases prev item <;> rfl

theorem popBack_holds (h : l.Holds items) :
    ∃ l', l.popBack = .ok l' ∧ l'.Holds items.dropLast := by
  obtain ⟨l', hpop, hholds⟩ := popFront_holds h.flip
  refine ⟨l'.flip, ?_, ?_⟩
  · rw [popBack_eq, hpop]
    rfl
  · have hback := hholds.flip
    rwa [List.tail_reverse, List.reverse_reverse] at hback

/-! ### The pointers under the pool -/

inductive Op where
  | pushFront (item : Block)
  | popFront
  | popBack
  deriving DecidableEq, Repr

def step (l : IdleList) : Op → Except Fault IdleList
  | .pushFront item => l.pushFront item
  | .popFront => l.popFront
  | .popBack => l.popBack

end IdleList

/-- What a section of a thread does to the list. -/
def Thread.listOps (o : ConnectionPoolOption) (label : Label α) (p : ConnectionPool α)
    (t : Thread α) : List IdleList.Op :=
  match t.pc, label with
  | .sweep, .read now =>
      match p.sweepSection o now with
      | .expired _ _ => [.popBack]
      | _ => []
  | .scan, .read now =>
      match p.scanSection o now with
      | .exhausted => []
      | _ => [.popFront]
  | .push item, .next =>
      .pushFront item.block ::
        match (p.pushSection o item).1 with
        | some _ => [.popBack]
        | none => []
  | _, _ => []

def ConnectionPool.idleBlocks (p : ConnectionPool α) : List Block := p.idle.map (·.block)

namespace PoolThreads

variable [DecidableEq T] [Fintype T] {o : ConnectionPoolOption} {ops : List (T × Label α)}
  {s s' : PoolThreads T α}

/-- The section of `Put` on the pointers. -/
theorem push_holds {l : IdleList} {p : ConnectionPool α} {item : ListItem α}
    (h : l.Holds p.idleBlocks) (hnew : item.block ∉ p.idleBlocks) :
    ∃ l', run IdleList.step l (Thread.listOps o .next p ⟨.push item, []⟩) = .ok l' ∧
      l'.Holds (p.pushSection o item).2.idleBlocks := by
  obtain ⟨l₁, hpush, h₁⟩ := IdleList.pushFront_holds h hnew
  simp only [Thread.listOps]
  rcases ConnectionPool.pushSection_cases o p item with
    ⟨hsection, _⟩ | ⟨kept, evicted, hsplit, _, hsection⟩
  · rw [hsection]
    exact ⟨l₁, run_cons_ok.mpr ⟨l₁, hpush, rfl⟩, h₁⟩
  · obtain ⟨l₂, hpop, h₂⟩ := IdleList.popBack_holds h₁
    have hkept : kept.map (·.block) = (item.block :: p.idleBlocks).dropLast := by
      have hblocks := congrArg (fun idle => (idle.map (·.block)).dropLast) hsplit
      simpa [ConnectionPool.idleBlocks] using hblocks.symm
    rw [hsection]
    refine ⟨l₂, run_cons_ok.mpr ⟨l₁, hpush, run_cons_ok.mpr ⟨l₂, hpop, rfl⟩⟩, ?_⟩
    unfold ConnectionPool.idleBlocks
    rw [hkept]
    exact h₂

theorem step_holds {op : T × Label α} {l : IdleList} (hbalanced : s.Balanced)
    (h : l.Holds s.shared.idleBlocks) (hstep : step o s op = .ok s') :
    ∃ l', run IdleList.step l (Thread.listOps o op.2 s.shared (s.own op.1)) = .ok l' ∧
      l'.Holds s'.shared.idleBlocks := by
  obtain ⟨t, label⟩ := op
  obtain ⟨shared, own, hown, rfl⟩ := interleave_ok.mp hstep
  dsimp only at hown ⊢
  generalize hthread : s.own t = thread at hown ⊢
  obtain ⟨pc, held⟩ := thread
  obtain ⟨pc', held'⟩ := own
  cases pc with
  | push item =>
      obtain ⟨rfl, rfl, _⟩ := Thread.step_push rfl hown
      have hnew : item.block ∉ s.shared.idleBlocks := by
        intro hmem
        obtain ⟨other, hother, heq⟩ := List.mem_map.mp hmem
        have hpc : (s.own t).pc = .push item := by rw [hthread]
        exact hbalanced.apart hpc other hother heq
      exact push_holds h hnew
  | sweep =>
      cases label with
      | read now =>
          cases hsection : s.shared.sweepSection o now with
          | exhausted =>
              simp only [Thread.step, hsection, Except.ok.injEq, Prod.mk.injEq] at hown
              simp only [Thread.listOps, hsection, ← hown.1]
              exact ⟨l, rfl, h⟩
          | unexpired =>
              simp only [Thread.step, hsection, Except.ok.injEq, Prod.mk.injEq] at hown
              simp only [Thread.listOps, hsection, ← hown.1]
              exact ⟨l, rfl, h⟩
          | expired item popped =>
              obtain ⟨front, hidle, _, rfl⟩ := ConnectionPool.sweepSection_expired hsection
              simp only [Thread.step, hsection, Except.ok.injEq, Prod.mk.injEq] at hown
              simp only [Thread.listOps, hsection, ← hown.1]
              obtain ⟨l', hpop, hholds⟩ := IdleList.popBack_holds h
              refine ⟨l', run_cons_ok.mpr ⟨l', hpop, rfl⟩, ?_⟩
              simpa [ConnectionPool.idleBlocks, hidle] using hholds
      | _ => simp [Thread.step] at hown
  | scan =>
      cases label with
      | read now =>
          obtain ⟨l', hpop, hholds⟩ := IdleList.popFront_holds h
          have hrun : run IdleList.step l [.popFront] = .ok l' :=
            run_cons_ok.mpr ⟨l', hpop, rfl⟩
          cases hsection : s.shared.scanSection o now with
          | exhausted =>
              simp only [Thread.step, hsection, Except.ok.injEq, Prod.mk.injEq] at hown
              simp only [Thread.listOps, hsection, ← hown.1]
              exact ⟨l, rfl, h⟩
          | usable item popped =>
              obtain ⟨behind, hidle, _, rfl⟩ := ConnectionPool.scanSection_usable hsection
              simp only [Thread.step, hsection, Except.ok.injEq, Prod.mk.injEq] at hown
              simp only [Thread.listOps, hsection, ← hown.1]
              refine ⟨l', hrun, ?_⟩
              simpa [ConnectionPool.idleBlocks, hidle] using hholds
          | overage item popped =>
              obtain ⟨behind, hidle, _, rfl⟩ := ConnectionPool.scanSection_overage hsection
              simp only [Thread.step, hsection, Except.ok.injEq, Prod.mk.injEq] at hown
              simp only [Thread.listOps, hsection, ← hown.1]
              refine ⟨l', hrun, ?_⟩
              simpa [ConnectionPool.idleBlocks, hidle] using hholds
      | _ => simp [Thread.step] at hown
  | _ =>
      have hmoves := Thread.step_moves hown
      refine ⟨l, rfl, ?_⟩
      dsimp only at hmoves
      have hidle : shared.idle = s.shared.idle := by
        cases hmoves <;> rfl
      unfold ConnectionPool.idleBlocks
      rw [hidle]
      exact h

/-- What the sections of a run do to the list. -/
def listOps (o : ConnectionPoolOption) (s : PoolThreads T α) (ops : List (T × Label α)) :
    List IdleList.Op :=
  (trace (step o) (fun s op => Thread.listOps o op.2 s.shared (s.own op.1)) s ops).flatten

theorem run_holds {l : IdleList} (hbalanced : s.Balanced) (h : l.Holds s.shared.idleBlocks)
    (hrun : run (step o) s ops = .ok s') :
    ∃ l', run IdleList.step l (listOps o s ops) = .ok l' ∧ l'.Holds s'.shared.idleBlocks := by
  induction ops generalizing s l with
  | nil =>
      cases hrun
      exact ⟨l, rfl, h⟩
  | cons op ops ih =>
      obtain ⟨s₁, hop, hrest⟩ := run_cons_ok.mp hrun
      obtain ⟨l₁, hfirst, h₁⟩ := step_holds hbalanced h hop
      obtain ⟨l', hlater, h'⟩ := ih (step_balanced hbalanced hop) h₁ hrest
      refine ⟨l', ?_, h'⟩
      unfold listOps at hlater ⊢
      rw [trace_cons _ _ hop, List.flatten_cons]
      exact run_append_ok.mpr ⟨l₁, hfirst, hlater⟩

/-- In every interleaving the pushes and pops of the sections follow no NULL
pointer, and the pointers hold the idle sequence. -/
theorem pointers_hold (hrun : run (step o) start ops = .ok s) :
    ∃ l, run IdleList.step {} (listOps o start ops) = .ok l ∧ l.Holds s.shared.idleBlocks :=
  run_holds (run_balanced (rfl : run (step o) start [] = .ok start)) IdleList.Holds.new hrun

/-- A thread borrows a new connection. -/
def borrows (t : Bool) : List (Bool × Label Unit) :=
  [(t, .callGet), (t, .next), (t, .read 0), (t, .read 0), (t, .next), (t, .malloc true),
    (t, .next), (t, .init 0 0 true ())]

/-- Two threads return three connections to a list of two, which drops the
oldest; the sweep of the next `Get` drops another one, and its scan takes the
last. It is returned while the other thread is in its eviction. -/
def pushedAndPopped : List (Bool × Label Unit) :=
  borrows true ++ borrows true ++ borrows false ++
    [(true, .callPut 0 true), (false, .callPut 2 true), (true, .read 5), (false, .read 6),
      (true, .next), (false, .next), (true, .callPut 1 true), (false, .callGet),
      (true, .read 7), (false, .next), (true, .next), (false, .read 107), (false, .next),
      (false, .next), (false, .read 107), (false, .read 107), (false, .callPut 1 true),
      (false, .read 108), (false, .next), (true, .next)]

theorem pointers_hold_of_pushes_and_pops :
    ∃ (s : PoolThreads Bool Unit) (l : IdleList),
      run (step { maxIdle := 2, idleTimeoutMs := 100 }) start pushedAndPopped = .ok s ∧
      listOps { maxIdle := 2, idleTimeoutMs := 100 } start pushedAndPopped =
        [.pushFront 0, .pushFront 2, .pushFront 1, .popBack, .popBack, .popFront,
          .pushFront 1] ∧
      run IdleList.step {}
        (listOps { maxIdle := 2, idleTimeoutMs := 100 } start pushedAndPopped) = .ok l ∧
      s.shared.idleBlocks = [1] ∧ l.Holds s.shared.idleBlocks := by
  obtain ⟨s, hrun, hidle⟩ : ∃ s : PoolThreads Bool Unit,
      run (step { maxIdle := 2, idleTimeoutMs := 100 }) start pushedAndPopped = .ok s ∧
      s.shared.idleBlocks = [1] :=
    ⟨_, rfl, rfl⟩
  obtain ⟨l, hl, hholds⟩ := pointers_hold hrun
  exact ⟨s, l, hrun, rfl, hl, hidle, hholds⟩

end PoolThreads

end CloRedis
