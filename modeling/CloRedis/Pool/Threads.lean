import CloRedis.Library.Interleaving
import CloRedis.Pool.World

/-!
Any number of threads on one pool. A thread is at one of the points between
the indivisible parts of `Get` and `Put`: the sections guarded by a mutex, the
reads and updates of `active_cnt_`, the stamp of `Put`, and the run of the
init handler. What a part depends on outside the pool (the clock, `malloc`,
the handler) is in the label of the step.
-/

namespace CloRedis

open Library

variable {α : Type*}

/-- Where a call goes on after `Gc`. -/
inductive After where
  | sweep
  | scan
  | returnNull
  | finish
  deriving DecidableEq, Repr

/-- The next indivisible part of the call a thread is in. -/
inductive Pc (α : Type*) where
  | ready
  | admission
  | sweep
  | scan
  | takeBlock
  | malloc
  | countUp (block : Block)
  | construct (block : Block)
  | recycle (item : ListItem α) (next : After)
  | countDown (next : After)
  | stamp (item : ListItem α)
  | push (item : ListItem α)
  deriving DecidableEq, Repr

structure Thread (α : Type*) where
  pc : Pc α := .ready
  held : List (ListItem α) := []

/-- `read` carries a clock reading, `init` the two readings of the placement
new, the answer of the init handler and the object it leaves. -/
inductive Label (α : Type*) where
  | callGet
  | callPut (block : Block) (isOk : Bool)
  | next
  | read (now : UInt64)
  | malloc (ok : Bool)
  | init (active create : UInt64) (ok : Bool) (object : α)

inductive Disabled where
  | notHeld
  | elsewhere

def After.pc : After → Pc α
  | .sweep => .sweep
  | .scan => .scan
  | .returnNull => .ready
  | .finish => .ready

def Thread.step (o : ConnectionPoolOption) (label : Label α) (p : ConnectionPool α)
    (t : Thread α) : Except Disabled (ConnectionPool α × Thread α) :=
  match t.pc, label with
  | .ready, .callGet => .ok (p, { t with pc := .admission })
  | .ready, .callPut block isOk =>
      match takeFirst (isBlock block) t.held with
      | none => .error .notHeld
      | some (item, rest) =>
          .ok (p, ⟨if isOk then .stamp item else .recycle item .finish, rest⟩)
  | .admission, .next =>
      if p.admits o then
        .ok (p, { t with pc := if 0 < o.idleTimeoutMs then .sweep else .scan })
      else .ok (p.refuse, { t with pc := .ready })
  | .sweep, .read now =>
      match p.sweepSection o now with
      | .exhausted => .ok (p, { t with pc := .scan })
      | .unexpired => .ok (p, { t with pc := .scan })
      | .expired item p => .ok (p, { t with pc := .recycle item .sweep })
  | .scan, .read now =>
      match p.scanSection o now with
      | .exhausted => .ok (p, { t with pc := .takeBlock })
      | .usable item p => .ok (p, ⟨.ready, item :: t.held⟩)
      | .overage item p => .ok (p, { t with pc := .recycle item .scan })
  | .takeBlock, .next =>
      match p.takeBlock with
      | (some block, p) => .ok (p, { t with pc := .countUp block })
      | (none, p) => .ok (p, { t with pc := .malloc })
  | .malloc, .malloc true =>
      .ok (p.mallocBlock.2, { t with pc := .countUp p.mallocBlock.1 })
  | .malloc, .malloc false => .ok (p.mallocFailed, { t with pc := .ready })
  | .countUp block, .next => .ok (p.countUp, { t with pc := .construct block })
  | .construct block, .init active create ok object =>
      let (item, p) := p.construct block active create object
      if ok then .ok (p, ⟨.ready, item :: t.held⟩)
      else .ok (p, { t with pc := .recycle item .returnNull })
  | .recycle item next, .next => .ok (p.recycle item, { t with pc := .countDown next })
  | .countDown next, .next => .ok (p.countDown, { t with pc := next.pc })
  | .stamp item, .read now => .ok (p, { t with pc := .push (item.stamp now) })
  | .push item, .next =>
      match p.pushSection o item with
      | (some evicted, p) => .ok (p, { t with pc := .recycle evicted .finish })
      | (none, p) => .ok (p, { t with pc := .ready })
  | _, _ => .error .elsewhere

/-- What one step of a thread can do: the point it is at and the connections
it holds, before and after, with the change of the pool. -/
inductive Thread.Moves (o : ConnectionPoolOption) (p : ConnectionPool α)
    (held : List (ListItem α)) : Pc α → ConnectionPool α → Pc α → List (ListItem α) → Prop where
  | callGet : Moves o p held .ready p .admission held
  | callPut (item : ListItem α) (rest : List (ListItem α)) (next : Pc α) :
      held.Perm (item :: rest) → next = .stamp item ∨ next = .recycle item .finish →
      Moves o p held .ready p next rest
  | admitted (next : Pc α) : p.admits o = true → next = .sweep ∨ next = .scan →
      Moves o p held .admission p next held
  | refused : p.admits o = false → Moves o p held .admission p.refuse .ready held
  | swept : Moves o p held .sweep p .scan held
  | expired (front : List (ListItem α)) (item : ListItem α) (now : UInt64) :
      p.idle = front ++ [item] → item.timedOut o now = true →
      Moves o p held .sweep { p with idle := front } (.recycle item .sweep) held
  | exhausted : p.idle = [] → Moves o p held .scan p .takeBlock held
  | usable (item : ListItem α) (behind : List (ListItem α)) (now : UInt64) :
      p.idle = item :: behind → item.withinLifeTime o now = true →
      Moves o p held .scan { p with idle := behind } .ready (item :: held)
  | overage (item : ListItem α) (behind : List (ListItem α)) (now : UInt64) :
      p.idle = item :: behind → item.withinLifeTime o now = false →
      Moves o p held .scan { p with idle := behind } (.recycle item .scan) held
  | recycled (block : Block) (rest : List Block) : p.memPool = block :: rest →
      Moves o p held .takeBlock { p with memPool := rest } (.countUp block) held
  | noneRecycled : p.memPool = [] → Moves o p held .takeBlock p .malloc held
  | allocated :
      Moves o p held .malloc { p with mallocs := p.mallocs + 1 } (.countUp p.mallocs) held
  | outOfMemory : Moves o p held .malloc p.mallocFailed .ready held
  | counted (block : Block) : Moves o p held (.countUp block) p.countUp (.construct block) held
  | ready (block : Block) (active create : UInt64) (object : α) :
      Moves o p held (.construct block) (p.construct block active create object).2 .ready
        ((p.construct block active create object).1 :: held)
  | failed (block : Block) (active create : UInt64) (object : α) :
      Moves o p held (.construct block) (p.construct block active create object).2
        (.recycle (p.construct block active create object).1 .returnNull) held
  | recycles (item : ListItem α) (next : After) :
      Moves o p held (.recycle item next) (p.recycle item) (.countDown next) held
  | uncounted (next : After) : Moves o p held (.countDown next) p.countDown next.pc held
  | stamped (item : ListItem α) (now : UInt64) :
      Moves o p held (.stamp item) p (.push (item.stamp now)) held
  | pushed (item : ListItem α) : Moves o p held (.push item) (p.pushFront item) .ready held
  | evicted (item : ListItem α) (kept : List (ListItem α)) (last : ListItem α) :
      item :: p.idle = kept ++ [last] → 0 < o.maxIdle ∧ o.maxIdle < p.idle.length + 1 →
      Moves o p held (.push item) { p with idle := kept } (.recycle last .finish) held

theorem Thread.step_moves {o : ConnectionPoolOption} {label : Label α} {p p' : ConnectionPool α}
    {t t' : Thread α} (h : t.step o label p = .ok (p', t')) :
    Moves o p t.held t.pc p' t'.pc t'.held := by
  obtain ⟨pc, held⟩ := t
  cases pc with
  | ready =>
      cases label with
      | callGet =>
          cases h
          exact .callGet
      | callPut block isOk =>
          cases htake : takeFirst (isBlock block) held with
          | none => simp [step, htake] at h
          | some r =>
              obtain ⟨item, rest⟩ := r
              simp only [step, htake, Except.ok.injEq, Prod.mk.injEq] at h
              obtain ⟨rfl, rfl⟩ := h
              refine .callPut item rest _ (takeFirst_perm htake) ?_
              cases isOk <;> simp
      | _ => simp [step] at h
  | admission =>
      cases label with
      | next =>
          cases hadmits : p.admits o with
          | true =>
              simp only [step, hadmits, if_true, Except.ok.injEq, Prod.mk.injEq] at h
              obtain ⟨rfl, rfl⟩ := h
              refine .admitted _ hadmits ?_
              by_cases hlimit : 0 < o.idleTimeoutMs <;> simp [hlimit]
          | false =>
              simp only [step, hadmits, Bool.false_eq_true, if_false, Except.ok.injEq,
                Prod.mk.injEq] at h
              obtain ⟨rfl, rfl⟩ := h
              exact .refused hadmits
      | _ => simp [step] at h
  | sweep =>
      cases label with
      | read now =>
          cases hsection : p.sweepSection o now with
          | exhausted =>
              simp only [step, hsection, Except.ok.injEq, Prod.mk.injEq] at h
              obtain ⟨rfl, rfl⟩ := h
              exact .swept
          | unexpired =>
              simp only [step, hsection, Except.ok.injEq, Prod.mk.injEq] at h
              obtain ⟨rfl, rfl⟩ := h
              exact .swept
          | expired item popped =>
              simp only [step, hsection, Except.ok.injEq, Prod.mk.injEq] at h
              obtain ⟨rfl, rfl⟩ := h
              obtain ⟨front, hidle, hexpired, rfl⟩ := ConnectionPool.sweepSection_expired hsection
              exact .expired front item now hidle hexpired
      | _ => simp [step] at h
  | scan =>
      cases label with
      | read now =>
          cases hsection : p.scanSection o now with
          | exhausted =>
              simp only [step, hsection, Except.ok.injEq, Prod.mk.injEq] at h
              obtain ⟨rfl, rfl⟩ := h
              exact .exhausted (ConnectionPool.scanSection_exhausted hsection)
          | usable item popped =>
              simp only [step, hsection, Except.ok.injEq, Prod.mk.injEq] at h
              obtain ⟨rfl, rfl⟩ := h
              obtain ⟨behind, hidle, hlife, rfl⟩ := ConnectionPool.scanSection_usable hsection
              exact .usable item behind now hidle hlife
          | overage item popped =>
              simp only [step, hsection, Except.ok.injEq, Prod.mk.injEq] at h
              obtain ⟨rfl, rfl⟩ := h
              obtain ⟨behind, hidle, hlife, rfl⟩ := ConnectionPool.scanSection_overage hsection
              exact .overage item behind now hidle hlife
      | _ => simp [step] at h
  | takeBlock =>
      cases label with
      | next =>
          cases htake : p.takeBlock with
          | mk found rest =>
              cases found with
              | some block =>
                  simp only [step, htake, Except.ok.injEq, Prod.mk.injEq] at h
                  obtain ⟨rfl, rfl⟩ := h
                  obtain ⟨rest, hpool, rfl⟩ := ConnectionPool.takeBlock_some htake
                  exact .recycled block rest hpool
              | none =>
                  simp only [step, htake, Except.ok.injEq, Prod.mk.injEq] at h
                  obtain ⟨rfl, rfl⟩ := h
                  obtain ⟨hpool, rfl⟩ := ConnectionPool.takeBlock_none htake
                  exact .noneRecycled hpool
      | _ => simp [step] at h
  | malloc =>
      cases label with
      | malloc ok =>
          cases ok with
          | true =>
              cases h
              exact .allocated
          | false =>
              cases h
              exact .outOfMemory
      | _ => simp [step] at h
  | countUp block =>
      cases label with
      | next =>
          cases h
          exact .counted block
      | _ => simp [step] at h
  | construct block =>
      cases label with
      | init active create ok object =>
          cases ok with
          | true =>
              cases h
              exact .ready block active create object
          | false =>
              cases h
              exact .failed block active create object
      | _ => simp [step] at h
  | recycle item next =>
      cases label with
      | next =>
          cases h
          exact .recycles item next
      | _ => simp [step] at h
  | countDown next =>
      cases label with
      | next =>
          cases h
          exact .uncounted next
      | _ => simp [step] at h
  | stamp item =>
      cases label with
      | read now =>
          cases h
          exact .stamped item now
      | _ => simp [step] at h
  | push item =>
      cases label with
      | next =>
          rcases ConnectionPool.pushSection_cases o p item with
            ⟨hsection, _⟩ | ⟨kept, evicted, hsplit, hover, hsection⟩
          · simp only [step, hsection, Except.ok.injEq, Prod.mk.injEq] at h
            obtain ⟨rfl, rfl⟩ := h
            exact .pushed item
          · simp only [step, hsection, Except.ok.injEq, Prod.mk.injEq] at h
            obtain ⟨rfl, rfl⟩ := h
            exact .evicted item kept evicted hsplit hover
      | _ => simp [step] at h

end CloRedis
