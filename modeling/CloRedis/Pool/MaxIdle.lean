import CloRedis.Pool.Ownership

/-!
The bound on the idle list. `Put` pushes first and evicts one connection
afterwards, which is enough because no section ever leaves more than
`max_idle` connections behind. The list stands in the order of the pushes, so
what a `Put` evicts is the connection pushed longest ago.
-/

namespace CloRedis

open Library

variable {α T : Type*}

/-- The connections a push makes superfluous, and the list without them. -/
theorem ConnectionPool.pushSection_take {o : ConnectionPoolOption} {p : ConnectionPool α}
    (hpos : 0 < o.maxIdle) (hbound : p.connInPool ≤ o.maxIdle) (item : ListItem α) :
    p.pushSection o item = (((item :: p.idle).drop o.maxIdle.toNat).head?,
      { p with idle := (item :: p.idle).take o.maxIdle.toNat }) := by
  unfold connInPool at hbound
  rcases pushSection_cases o p item with
    ⟨hsection, hfits⟩ | ⟨kept, evicted, hsplit, hover, hsection⟩
  · have hall : (item :: p.idle).length ≤ o.maxIdle.toNat := by
      simp only [List.length_cons]
      omega
    rw [hsection, List.drop_eq_nil_of_le hall, List.take_of_length_le hall]
    rfl
  · have hlen := congrArg List.length hsplit
    simp only [List.length_cons, List.length_append, List.length_nil] at hlen
    have hkept : o.maxIdle.toNat = kept.length := by omega
    rw [hsection, hsplit, hkept, List.drop_left, List.take_left]
    rfl

theorem ConnectionPool.pushSection_unlimited {o : ConnectionPoolOption} (hnone : o.maxIdle ≤ 0)
    (p : ConnectionPool α) (item : ListItem α) :
    p.pushSection o item = (none, p.pushFront item) := by
  unfold pushSection
  rw [if_neg]
  rintro ⟨hpos, _⟩
  omega

def Label.IsCall : Label α → Prop
  | .callGet => True
  | .callPut _ _ => True
  | _ => False

/-- Where a thread goes on when its push has made a connection superfluous. -/
def Pc.afterPush : Option (ListItem α) → Pc α
  | some evicted => .recycle evicted .finish
  | none => .ready

/-- The push of a thread is the push section of `Put`. -/
theorem Thread.step_push {o : ConnectionPoolOption} {label : Label α} {p p' : ConnectionPool α}
    {t t' : Thread α} {item : ListItem α} (hpc : t.pc = .push item)
    (h : t.step o label p = .ok (p', t')) :
    label = .next ∧ p' = (p.pushSection o item).2 ∧ t'.held = t.held ∧
      t'.pc = .afterPush (p.pushSection o item).1 := by
  obtain ⟨pc, held⟩ := t
  subst hpc
  cases label with
  | next =>
      cases hsection : p.pushSection o item with
      | mk evicted p₁ =>
          cases evicted with
          | some last =>
              simp only [step, hsection, Except.ok.injEq, Prod.mk.injEq] at h
              obtain ⟨rfl, rfl⟩ := h
              exact ⟨rfl, rfl, rfl, rfl⟩
          | none =>
              simp only [step, hsection, Except.ok.injEq, Prod.mk.injEq] at h
              obtain ⟨rfl, rfl⟩ := h
              exact ⟨rfl, rfl, rfl, rfl⟩
  | _ => simp [step] at h

/-- Between two calls a thread can only call. -/
theorem Thread.step_ready {o : ConnectionPoolOption} {label : Label α} {p p' : ConnectionPool α}
    {t t' : Thread α} (hpc : t.pc = .ready) (h : t.step o label p = .ok (p', t')) :
    label.IsCall := by
  obtain ⟨pc, held⟩ := t
  subst hpc
  cases label with
  | callGet => trivial
  | callPut block isOk => trivial
  | _ => simp [step] at h

theorem Thread.Moves.of_stamp {o : ConnectionPoolOption} {p p' : ConnectionPool α}
    {held held' : List (ListItem α)} {item : ListItem α} {pc : Pc α}
    (h : Moves o p held (.stamp item) p' pc held') : ∃ now, pc = .push (item.stamp now) := by
  cases h with
  | stamped _ now => exact ⟨now, rfl⟩

theorem Thread.Moves.of_recycle {o : ConnectionPoolOption} {p p' : ConnectionPool α}
    {held held' : List (ListItem α)} {item : ListItem α} {next : After} {pc : Pc α}
    (h : Moves o p held (.recycle item next) p' pc held') : pc = .countDown next := by
  cases h
  rfl

theorem Thread.Moves.of_countDown {o : ConnectionPoolOption} {p p' : ConnectionPool α}
    {held held' : List (ListItem α)} {next : After} {pc : Pc α}
    (h : Moves o p held (.countDown next) p' pc held') : pc = next.pc := by
  cases h
  rfl

/-- Only a push adds to the idle list. -/
theorem Thread.step_idle {o : ConnectionPoolOption} {label : Label α} {p p' : ConnectionPool α}
    {t t' : Thread α} (hpc : ∀ item, t.pc ≠ .push item) (h : t.step o label p = .ok (p', t')) :
    List.Sublist p'.idle p.idle := by
  have hmoves := step_moves h
  obtain ⟨pc, held⟩ := t
  obtain ⟨pc', held'⟩ := t'
  dsimp only at hmoves hpc
  cases hmoves with
  | expired front item now hidle _ =>
      dsimp only
      rw [hidle]
      exact List.sublist_append_left _ _
  | usable item behind now hidle _ =>
      dsimp only
      rw [hidle]
      exact List.sublist_cons_self _ _
  | overage item behind now hidle _ =>
      dsimp only
      rw [hidle]
      exact List.sublist_cons_self _ _
  | pushed item => exact absurd rfl (hpc item)
  | evicted item kept last _ _ => exact absurd rfl (hpc item)
  | _ => exact List.Sublist.refl _

namespace PoolThreads

variable [DecidableEq T] {o : ConnectionPoolOption} {ops rest : List (T × Label α)}
  {s s' s'' : PoolThreads T α} {t : T} {item : ListItem α}

/-- No more than `max_idle` connections are idle. -/
def Bounded (o : ConnectionPoolOption) (s : PoolThreads T α) : Prop :=
  0 < o.maxIdle → s.shared.connInPool ≤ o.maxIdle

theorem step_bounded {op : T × Label α} (h : s.Bounded o) (hstep : step o s op = .ok s') :
    s'.Bounded o := by
  intro hpos
  have hbound := h hpos
  obtain ⟨shared, own, hown, rfl⟩ := interleave_ok.mp hstep
  by_cases hpush : ∃ item, (s.own op.1).pc = .push item
  · obtain ⟨item, hpc⟩ := hpush
    obtain ⟨_, rfl, _⟩ := Thread.step_push hpc hown
    rw [ConnectionPool.pushSection_take hpos hbound]
    have hlen := List.length_take_le o.maxIdle.toNat (item :: s.shared.idle)
    unfold ConnectionPool.connInPool
    dsimp only
    omega
  · have hsub := Thread.step_idle (not_exists.mp hpush) hown
    have hlen := hsub.length_le
    unfold ConnectionPool.connInPool at hbound ⊢
    dsimp only at hlen ⊢
    omega

theorem run_bounded (hrun : run (step o) start ops = .ok s) : s.Bounded o := by
  refine run_invariant (I := Bounded o) (fun _ _ _ hs hop => step_bounded hs hop) ?_ hrun
  intro hpos
  exact hpos.le

/-! ### The order of the list -/

/-- The connection a step pushes. -/
def pushing (s : PoolThreads T α) (op : T × Label α) : List (ListItem α) :=
  match (s.own op.1).pc, op.2 with
  | .push item, .next => [item]
  | _, _ => []

/-- The connections a run pushes, in this order. -/
def pushed (o : ConnectionPoolOption) (s : PoolThreads T α) (ops : List (T × Label α)) :
    List (ListItem α) :=
  (trace (step o) pushing s ops).flatten

/-- A connection pushed again counts from its latest push. -/
def remember (latest : List (ListItem α)) (item : ListItem α) : List (ListItem α) :=
  item :: latest.filter fun other => other.block ≠ item.block

/-- The connections a run has pushed, each at its latest push, the latest
push first. -/
def latest (o : ConnectionPoolOption) (s : PoolThreads T α) (ops : List (T × Label α)) :
    List (ListItem α) :=
  (pushed o s ops).foldl remember []

/-- Every block is accounted for. -/
def Balanced [Fintype T] (s : PoolThreads T α) : Prop :=
  ∀ b, s.shared.occurrences b + ∑ t, (s.own t).occurrences b = s.shared.allocated b

section Order

variable [Fintype T]

theorem step_balanced {op : T × Label α} (h : s.Balanced) (hstep : step o s op = .ok s') :
    s'.Balanced := by
  intro b
  exact interleave_balance (fun p : ConnectionPool α => p.occurrences b) (fun p => p.allocated b)
    (fun t : Thread α => t.occurrences b)
    (fun _ _ _ _ _ hown => Thread.step_occurrences b hown) (h b) hstep

theorem run_balanced (hrun : run (step o) start ops = .ok s) : s.Balanced :=
  fun b => occurrences_balance hrun b

omit [DecidableEq T] in
/-- A connection about to be pushed is not in the list. -/
theorem Balanced.apart (h : s.Balanced) (hpc : (s.own t).pc = .push item) :
    ∀ other ∈ s.shared.idle, other.block ≠ item.block := by
  intro other hother heq
  have hbalance := h item.block
  have hidle : 0 < (s.shared.idle.map (·.block)).count item.block := by
    rw [List.count_pos_iff, ← heq]
    exact List.mem_map_of_mem hother
  have hown : 1 ≤ ∑ t, (s.own t).occurrences item.block := by
    have hhere : 1 ≤ (s.own t).occurrences item.block := by
      simp [Thread.occurrences, hpc, Pc.blocks]
    have hsum := Finset.single_le_sum (f := fun u => (s.own u).occurrences item.block)
      (fun u _ => Nat.zero_le _) (Finset.mem_univ t)
    exact hhere.trans hsum
  have hall : s.shared.allocated item.block ≤ 1 := by
    unfold ConnectionPool.allocated
    split <;> omega
  unfold ConnectionPool.occurrences at hbalance
  omega

theorem step_order {op : T × Label α} {l : List (ListItem α)} (hbalanced : s.Balanced)
    (hidle : List.Sublist s.shared.idle l) (hstep : step o s op = .ok s') :
    List.Sublist s'.shared.idle ((pushing s op).foldl remember l) := by
  obtain ⟨shared, own, hown, rfl⟩ := interleave_ok.mp hstep
  by_cases hpush : ∃ item, (s.own op.1).pc = .push item
  · obtain ⟨item, hpc⟩ := hpush
    obtain ⟨hlabel, rfl, _⟩ := Thread.step_push hpc hown
    have hall : List.Sublist (item :: s.shared.idle) (remember l item) := by
      apply List.Sublist.cons_cons
      rw [← List.filter_eq_self.mpr fun other hother =>
        decide_eq_true (hbalanced.apart hpc other hother)]
      exact hidle.filter _
    simp only [pushing, hpc, hlabel, List.foldl_cons, List.foldl_nil]
    refine List.Sublist.trans ?_ hall
    rcases ConnectionPool.pushSection_cases o s.shared item with
      ⟨hsection, _⟩ | ⟨kept, evicted, hsplit, _, hsection⟩
    · rw [hsection]
    · rw [hsection, hsplit]
      exact List.sublist_append_left _ _
  · have hnone : pushing s op = [] := by
      unfold pushing
      split
      · rename_i item hpc _
        exact absurd ⟨item, hpc⟩ hpush
      · rfl
    rw [hnone]
    exact (Thread.step_idle (not_exists.mp hpush) hown).trans hidle

/-- The idle list is in the order of the pushes, the latest first. -/
theorem run_order {l : List (ListItem α)} (hbalanced : s.Balanced)
    (hidle : List.Sublist s.shared.idle l) (hrun : run (step o) s ops = .ok s') :
    List.Sublist s'.shared.idle ((pushed o s ops).foldl remember l) := by
  induction ops generalizing s l with
  | nil =>
      cases hrun
      exact hidle
  | cons op ops ih =>
      obtain ⟨s₁, hop, hrest⟩ := run_cons_ok.mp hrun
      have hlater := ih (step_balanced hbalanced hop) (step_order hbalanced hidle hop) hrest
      unfold pushed at hlater ⊢
      rw [trace_cons _ _ hop, List.flatten_cons, List.foldl_append]
      exact hlater

theorem idle_latest (hrun : run (step o) start ops = .ok s) :
    List.Sublist s.shared.idle (latest o start ops) :=
  run_order (run_balanced (rfl : run (step o) start [] = .ok start)) (List.Sublist.refl _) hrun

end Order

/-! ### One `Put` among the steps of other threads -/

/-- The connection a step of the thread destroys. -/
def destroying (t : T) (s : PoolThreads T α) (op : T × Label α) : List (ListItem α) :=
  if op.1 = t then
    match (s.own t).pc with
    | .recycle item _ => [item]
    | _ => []
  else []

/-- The connections a thread destroys in a run. -/
def destroyedBy (o : ConnectionPoolOption) (t : T) (s : PoolThreads T α)
    (ops : List (T × Label α)) : List (ListItem α) :=
  (trace (step o) (destroying t) s ops).flatten

/-- The thread calls nothing during the run. -/
def NoCall (t : T) (ops : List (T × Label α)) : Prop :=
  ∀ op ∈ ops, op.1 = t → ¬op.2.IsCall

/-! ### What is left of a `Put` -/

theorem destroyedBy_append {first second : List (T × Label α)}
    (hrun : run (step o) s first = .ok s') :
    destroyedBy o t s (first ++ second) = destroyedBy o t s first ++ destroyedBy o t s' second := by
  unfold destroyedBy
  rw [trace_append _ _ hrun, List.flatten_append]

theorem destroyedBy_cons {op : T × Label α} (hstep : step o s op = .ok s') :
    destroyedBy o t s (op :: ops) = destroying t s op ++ destroyedBy o t s' ops := by
  unfold destroyedBy
  rw [trace_cons _ _ hstep, List.flatten_cons]

theorem destroyedBy_others (hothers : ∀ op ∈ ops, op.1 ≠ t) : destroyedBy o t s ops = [] := by
  induction ops generalizing s with
  | nil => rfl
  | cons op ops ih =>
      have hhead : destroying t s op = [] := if_neg (hothers op (List.mem_cons_self ..))
      have hrest : ∀ op ∈ ops, op.1 ≠ t := fun op hop => hothers op (List.mem_cons_of_mem _ hop)
      unfold destroyedBy
      cases hop : step o s op with
      | error e => simp [trace, hop, hhead]
      | ok s₁ =>
          have htail := ih (s := s₁) hrest
          unfold destroyedBy at htail
          rw [trace_cons _ _ hop, List.flatten_cons, hhead, htail]
          rfl

/-- A thread between two calls takes no step without a call. -/
theorem ready_rests (hpc : (s.own t).pc = .ready) (hcalls : NoCall t ops)
    (hrun : run (step o) s ops = .ok s') : ∀ op ∈ ops, op.1 ≠ t := by
  induction ops generalizing s with
  | nil => simp
  | cons op ops ih =>
      obtain ⟨s₁, hop, hrest⟩ := run_cons_ok.mp hrun
      have hother : op.1 ≠ t := by
        intro hown
        obtain ⟨shared, own, hstep, _⟩ := interleave_ok.mp hop
        rw [hown] at hstep
        exact hcalls op (List.mem_cons_self ..) hown (Thread.step_ready hpc hstep)
      have hready : (s₁.own t).pc = .ready := by
        rw [interleave_own hother hop, hpc]
      have htail := ih hready (fun op hop => hcalls op (List.mem_cons_of_mem _ hop)) hrest
      intro other hmem
      rcases List.mem_cons.mp hmem with rfl | hmem
      · exact hother
      · exact htail other hmem

/-- The next step of a thread that has not finished its call, after steps of
the others. -/
structure NextStep (o : ConnectionPoolOption) (t : T) (s s' : PoolThreads T α)
    (ops before : List (T × Label α)) (label : Label α) (after : List (T × Label α))
    (s₁ s₂ : PoolThreads T α) : Prop where
  split : ops = before ++ (t, label) :: after
  waits : run (step o) s before = .ok s₁
  same : s₁.own t = s.own t
  steps : step o s₁ (t, label) = .ok s₂
  rest : run (step o) s₂ after = .ok s'
  calls : NoCall t after
  destroyed : destroyedBy o t s ops = destroying t s₁ (t, label) ++ destroyedBy o t s₂ after

theorem nextStep (hcalls : NoCall t ops) (hrun : run (step o) s ops = .ok s')
    (hdone : (s'.own t).pc = .ready) (hpc : (s.own t).pc ≠ .ready) :
    ∃ before label after s₁ s₂, NextStep o t s s' ops before label after s₁ s₂ := by
  have hmoved : s'.own t ≠ s.own t := by
    intro hsame
    rw [hsame] at hdone
    exact hpc hdone
  obtain ⟨before, label, after, s₁, s₂, rfl, hothers, hwaits, hsame, hstep, hrest⟩ :=
    run_first_own hrun hmoved
  refine ⟨before, label, after, s₁, s₂, rfl, hwaits, hsame, hstep, hrest, ?_, ?_⟩
  · intro op hop
    exact hcalls op (List.mem_append_right _ (List.mem_cons_of_mem _ hop))
  · rw [destroyedBy_append hwaits, destroyedBy_others hothers, destroyedBy_cons hstep]
    rfl

theorem NextStep.moves {before after : List (T × Label α)} {label : Label α}
    {s₁ s₂ : PoolThreads T α} (h : NextStep o t s s' ops before label after s₁ s₂) :
    ∃ held, Thread.Moves o s₁.shared held (s.own t).pc s₂.shared (s₂.own t).pc (s₂.own t).held := by
  obtain ⟨shared, own, hown, hs₂⟩ := interleave_ok.mp h.steps
  have hmoves := Thread.step_moves hown
  rw [h.same] at hmoves
  refine ⟨(s.own t).held, ?_⟩
  rw [hs₂]
  dsimp only
  rw [Function.update_self]
  exact hmoves

theorem destroyedBy_countDown (hpc : (s.own t).pc = .countDown .finish) (hcalls : NoCall t ops)
    (hrun : run (step o) s ops = .ok s') (hdone : (s'.own t).pc = .ready) :
    destroyedBy o t s ops = [] := by
  obtain ⟨before, label, after, s₁, s₂, hnext⟩ := nextStep hcalls hrun hdone (by simp [hpc])
  obtain ⟨held, hmoves⟩ := hnext.moves
  rw [hpc] at hmoves
  have hready : (s₂.own t).pc = .ready := hmoves.of_countDown
  rw [hnext.destroyed, destroyedBy_others (ready_rests hready hnext.calls hnext.rest)]
  simp [destroying, hnext.same, hpc]

theorem destroyedBy_recycle (hpc : (s.own t).pc = .recycle item .finish) (hcalls : NoCall t ops)
    (hrun : run (step o) s ops = .ok s') (hdone : (s'.own t).pc = .ready) :
    destroyedBy o t s ops = [item] := by
  obtain ⟨before, label, after, s₁, s₂, hnext⟩ := nextStep hcalls hrun hdone (by simp [hpc])
  obtain ⟨held, hmoves⟩ := hnext.moves
  rw [hpc] at hmoves
  have hcount : (s₂.own t).pc = .countDown .finish := hmoves.of_recycle
  rw [hnext.destroyed, destroyedBy_countDown hcount hnext.calls hnext.rest hdone]
  simp [destroying, hnext.same, hpc]

/-- What a `Put` destroys is what its push has evicted. -/
theorem destroyedBy_afterPush {evicted : Option (ListItem α)}
    (hpc : (s.own t).pc = .afterPush evicted) (hcalls : NoCall t ops)
    (hrun : run (step o) s ops = .ok s') (hdone : (s'.own t).pc = .ready) :
    destroyedBy o t s ops = evicted.toList := by
  cases evicted with
  | none => exact destroyedBy_others (ready_rests hpc hcalls hrun)
  | some last => exact destroyedBy_recycle hpc hcalls hrun hdone

/-- The push of a `Put` that runs from `s` to its end: the connection it
pushes, the steps before it and the state it finds. -/
structure PushOf (o : ConnectionPoolOption) (t : T) (s s' : PoolThreads T α) (item : ListItem α)
    (ops before : List (T × Label α)) (now : UInt64) (s₁ s₂ : PoolThreads T α) : Prop where
  split : ∃ after, ops = before ++ (t, .next) :: after
  finds : run (step o) s before = .ok s₁
  point : (s₁.own t).pc = .push (item.stamp now)
  steps : step o s₁ (t, .next) = .ok s₂
  section_eq : s₂.shared = (s₁.shared.pushSection o (item.stamp now)).2
  destroyed : destroyedBy o t s ops = (s₁.shared.pushSection o (item.stamp now)).1.toList

theorem put_pushes (hpc : (s.own t).pc = .stamp item) (hcalls : NoCall t ops)
    (hrun : run (step o) s ops = .ok s') (hdone : (s'.own t).pc = .ready) :
    ∃ before now s₁ s₂, PushOf o t s s' item ops before now s₁ s₂ := by
  obtain ⟨waits, label, after, u₁, u₂, hstamp⟩ := nextStep hcalls hrun hdone (by simp [hpc])
  obtain ⟨held, hmoves⟩ := hstamp.moves
  rw [hpc] at hmoves
  obtain ⟨now, hpush⟩ := hmoves.of_stamp
  obtain ⟨waits', label', after', s₁, s₂, hnext⟩ :=
    nextStep hstamp.calls hstamp.rest hdone (by simp [hpush])
  obtain ⟨shared, own, hown, hs₂⟩ := interleave_ok.mp hnext.steps
  have hpc₁ : (s₁.own t).pc = .push (item.stamp now) := by rw [hnext.same, hpush]
  obtain ⟨rfl, rfl, _, hafter⟩ := Thread.step_push hpc₁ hown
  have hpc₂ : (s₂.own t).pc = .afterPush (s₁.shared.pushSection o (item.stamp now)).1 := by
    rw [hs₂]
    dsimp only
    rw [Function.update_self]
    exact hafter
  refine ⟨waits ++ (t, label) :: waits', now, s₁, s₂, ?_, ?_, hpc₁, hnext.steps, ?_, ?_⟩
  · refine ⟨after', ?_⟩
    rw [hstamp.split, hnext.split, List.append_assoc, List.cons_append]
  · exact run_append_ok.mpr ⟨u₁, hstamp.waits, run_cons_ok.mpr ⟨u₂, hstamp.steps, hnext.waits⟩⟩
  · rw [hs₂]
  · have hrest := destroyedBy_afterPush hpc₂ hnext.calls hnext.rest hdone
    rw [hstamp.destroyed, hnext.destroyed, hrest]
    simp [destroying, hstamp.same, hpc, hpc₁]

/-- What a `Put` leaves of `line`, the connection it returns in front of the
idle list it finds. -/
structure KeepsNewest (o : ConnectionPoolOption) (item : ListItem α) (idle line : List (ListItem α))
    (left gone : List (ListItem α)) : Prop where
  kept : 0 < o.maxIdle → left = line.take o.maxIdle.toNat
  evicted : 0 < o.maxIdle → gone = line.drop o.maxIdle.toNat ∧ gone.length ≤ 1
  others : ∀ other ∈ gone, other ∈ idle ∧ other.block ≠ item.block
  unlimited : o.maxIdle ≤ 0 → left = line ∧ gone = []

/-- In every state of every interleaving the idle list is within `max_idle`,
and in the order of the pushes. Every `Put` from such a state leaves the first
`max_idle` of the returned connection and the list its push finds, and destroys
the rest, which is at most the one pushed longest ago. -/
theorem put_keeps_newest [Fintype T] (hrun : run (step o) start ops = .ok s) :
    (0 < o.maxIdle → s.shared.connInPool ≤ o.maxIdle) ∧
    ∀ t item rest s', (s.own t).pc = .stamp item → NoCall t rest →
      run (step o) s rest = .ok s' → (s'.own t).pc = .ready →
      ∃ before now s₁ s₂, PushOf o t s s' item rest before now s₁ s₂ ∧
        List.Sublist s₁.shared.idle (latest o start (ops ++ before)) ∧
        KeepsNewest o item s₁.shared.idle (item.stamp now :: s₁.shared.idle) s₂.shared.idle
          (destroyedBy o t s rest) := by
  refine ⟨run_bounded hrun, ?_⟩
  intro t item rest s' hpc hcalls hrest hdone
  obtain ⟨before, now, s₁, s₂, hpush⟩ := put_pushes hpc hcalls hrest hdone
  have hreached : run (step o) start (ops ++ before) = .ok s₁ :=
    run_append_ok.mpr ⟨s, hrun, hpush.finds⟩
  have hbound := run_bounded hreached
  refine ⟨before, now, s₁, s₂, hpush, idle_latest hreached, ?_, ?_, ?_, ?_⟩
  · intro hpos
    rw [hpush.section_eq, ConnectionPool.pushSection_take hpos (hbound hpos)]
  · intro hpos
    have hlen : ((item.stamp now :: s₁.shared.idle).drop o.maxIdle.toNat).length ≤ 1 := by
      have hfits := hbound hpos
      unfold ConnectionPool.connInPool at hfits
      rw [List.length_drop, List.length_cons]
      omega
    rw [hpush.destroyed, ConnectionPool.pushSection_take hpos (hbound hpos)]
    generalize (item.stamp now :: s₁.shared.idle).drop o.maxIdle.toNat = gone at hlen ⊢
    match gone, hlen with
    | [], _ => exact ⟨rfl, Nat.zero_le _⟩
    | [_], _ => exact ⟨rfl, le_rfl⟩
  · intro other hother
    have hidle : other ∈ s₁.shared.idle := by
      rw [hpush.destroyed] at hother
      by_cases hpos : 0 < o.maxIdle
      · rw [ConnectionPool.pushSection_take hpos (hbound hpos), Option.mem_toList] at hother
        obtain ⟨n, hn⟩ : ∃ n, o.maxIdle.toNat = n + 1 := ⟨o.maxIdle.toNat - 1, by omega⟩
        rw [hn, List.drop_succ_cons] at hother
        exact List.mem_of_mem_drop (List.mem_of_mem_head? hother)
      · rw [ConnectionPool.pushSection_unlimited (not_lt.mp hpos)] at hother
        cases hother
    exact ⟨hidle, (run_balanced hreached).apart hpush.point other hidle⟩
  · intro hnone
    rw [hpush.section_eq, hpush.destroyed, ConnectionPool.pushSection_unlimited hnone]
    exact ⟨rfl, rfl⟩

/-- A thread borrows two connections, returns the first and begins to return
the second. -/
def returnTwo : List (Bool × Label Unit) :=
  [(true, .callGet), (true, .next), (true, .read 0), (true, .next), (true, .malloc true),
    (true, .next), (true, .init 0 0 true ()),
    (true, .callGet), (true, .next), (true, .read 0), (true, .next), (true, .malloc true),
    (true, .next), (true, .init 0 0 true ()),
    (true, .callPut 0 true), (true, .read 7), (true, .next), (true, .callPut 1 true)]

def finishReturn : List (Bool × Label Unit) :=
  [(true, .read 8), (true, .next), (true, .next), (true, .next)]

theorem put_keeps_newest_of_two :
    ∃ (s s' : PoolThreads Bool Unit) (item : ListItem Unit),
      run (step { maxIdle := 1 }) start returnTwo = .ok s ∧ s.shared.connInPool ≤ 1 ∧
      run (step { maxIdle := 1 }) s finishReturn = .ok s' ∧ (s.own true).pc = .stamp item ∧
      ∃ before now s₁ s₂, PushOf { maxIdle := 1 } true s s' item finishReturn before now s₁ s₂ ∧
        List.Sublist s₁.shared.idle (latest { maxIdle := 1 } start (returnTwo ++ before)) ∧
        KeepsNewest { maxIdle := 1 } item s₁.shared.idle (item.stamp now :: s₁.shared.idle)
          s₂.shared.idle (destroyedBy { maxIdle := 1 } true s finishReturn) := by
  have hlaw := put_keeps_newest (rfl : run (step { maxIdle := 1 }) start returnTwo = .ok _)
  refine ⟨_, _, _, rfl, hlaw.1 (by decide), rfl, rfl, hlaw.2 true _ finishReturn _ rfl ?_ rfl rfl⟩
  intro op hop _
  simp only [finishReturn, List.mem_cons, List.not_mem_nil, or_false] at hop
  rcases hop with rfl | rfl | rfl | rfl <;> exact id

end PoolThreads

end CloRedis
