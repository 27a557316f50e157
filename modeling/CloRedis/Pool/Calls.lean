import CloRedis.Library.Lists
import CloRedis.Library.Loop
import CloRedis.Pool.State

/-!
`Get`, `Put` and what they call, run without other threads. The two loops of
`Get` are written as loop bodies and run with fuel; both terminate because a
section that goes on has popped a node. The specification lemmas describe the
effect of each loop on the idle list by a decomposition of that list.
-/

namespace CloRedis

open Library

variable {α : Type*}

/-- What the surroundings answer during one call of `Get`: whether `malloc`
succeeds, the object `Type(this)` builds, and the init handler (`none` when
it is NULL) with its effect on that object. -/
structure CallEnv (α : Type*) where
  malloc : Bool
  fresh : α
  init : Option (α → Bool × α)

/-- Neither `malloc` nor the init handler fails. -/
def CallEnv.Succeeds (env : CallEnv α) : Prop :=
  env.malloc = true ∧ ∀ handler ∈ env.init, (handler env.fresh).1 = true

/-- The object of a connection that is handed out new: built, and accepted by
the init handler. -/
def CallEnv.Builds (env : CallEnv α) (object : α) : Prop :=
  env.init = none ∧ object = env.fresh ∨ ∃ handler ∈ env.init, handler env.fresh = (true, object)

/-- A pool in the middle of a call, with the clock readings taken so far. -/
structure Progress (α : Type*) where
  pool : ConnectionPool α
  ticks : Nat

structure GetResult (α : Type*) where
  pool : ConnectionPool α
  item : Option (ListItem α)
  ticks : Nat

namespace ConnectionPool

/-- `Gc` on each of the nodes in turn. -/
def gcAll (p : ConnectionPool α) (items : List (ListItem α)) : ConnectionPool α :=
  items.foldl gc p

def sweepBody (o : ConnectionPoolOption) (clock : Clock) (s : Progress α) :
    Progress α ⊕ Progress α :=
  match s.pool.sweepSection o (clock.read s.ticks) with
  | .exhausted => .inr s
  | .unexpired => .inr { s with ticks := s.ticks + 1 }
  | .expired item p => .inl ⟨p.gc item, s.ticks + 1⟩

/-- The first loop of `Get`. -/
def sweep (o : ConnectionPoolOption) (clock : Clock) (s : Progress α) : Progress α :=
  runLoop (sweepBody o clock) id (s.pool.idle.length + 1) s

/-- The clock readings one lifetime test takes: `||` skips the reading when
there is no limit. -/
def lifeReads (o : ConnectionPoolOption) : Nat :=
  if o.maxConnLifeTime ≤ 0 then 0 else 1

def scanBody (o : ConnectionPoolOption) (clock : Clock) (s : Progress α) :
    Progress α ⊕ (Option (ListItem α) × Progress α) :=
  match s.pool.scanSection o (clock.read s.ticks) with
  | .exhausted => .inr (none, s)
  | .usable item p => .inr (some item, ⟨p, s.ticks + lifeReads o⟩)
  | .overage item p => .inl ⟨p.gc item, s.ticks + lifeReads o⟩

/-- The second loop of `Get`. -/
def scan (o : ConnectionPoolOption) (clock : Clock) (s : Progress α) :
    Option (ListItem α) × Progress α :=
  runLoop (scanBody o clock) (fun s => (none, s)) (s.pool.idle.length + 1) s

/-- The rest of `GetNewInstance` once it has a block. -/
def build (clock : Clock) (env : CallEnv α) (s : Progress α) (block : Block) : GetResult α :=
  let (item, p) := s.pool.countUp.construct block
    (clock.read s.ticks) (clock.read (s.ticks + 1)) env.fresh
  match env.init with
  | none => ⟨p, some item, s.ticks + 2⟩
  | some handler =>
      let (ok, object) := handler item.object
      let item := { item with object := object }
      if ok then ⟨p, some item, s.ticks + 2⟩ else ⟨p.gc item, none, s.ticks + 2⟩

def getNewInstance (clock : Clock) (env : CallEnv α) (s : Progress α) : GetResult α :=
  match s.pool.takeBlock with
  | (some block, p) => build clock env ⟨p, s.ticks⟩ block
  | (none, p) =>
      if env.malloc then
        let (block, p) := p.mallocBlock
        build clock env ⟨p, s.ticks⟩ block
      else ⟨p.mallocFailed, none, s.ticks⟩

/-- The block of `Get` that holds the first loop. -/
def expire (o : ConnectionPoolOption) (clock : Clock) (p : ConnectionPool α) : Progress α :=
  if 0 < o.idleTimeoutMs then sweep o clock ⟨p, 0⟩ else ⟨p, 0⟩

def get (o : ConnectionPoolOption) (clock : Clock) (env : CallEnv α) (p : ConnectionPool α) :
    GetResult α :=
  if !p.admits o then ⟨p.refuse, none, 0⟩
  else
    match scan o clock (expire o clock p) with
    | (some item, s) => ⟨s.pool, some item, s.ticks⟩
    | (none, s) => getNewInstance clock env s

def put (o : ConnectionPoolOption) (now : UInt64) (item : ListItem α) (isOk : Bool)
    (p : ConnectionPool α) : ConnectionPool α :=
  if !isOk then p.gc item
  else
    match p.pushSection o (item.stamp now) with
    | (some evicted, p) => p.gc evicted
    | (none, p) => p

/-! ### Fields after `Gc` on a list of nodes -/

section gcAll

variable (p : ConnectionPool α) (items : List (ListItem α))

@[simp] theorem gcAll_nil : p.gcAll [] = p := rfl

@[simp] theorem gcAll_cons (item : ListItem α) :
    p.gcAll (item :: items) = (p.gc item).gcAll items := rfl

@[simp] theorem gcAll_idle : (p.gcAll items).idle = p.idle := by
  induction items generalizing p with
  | nil => rfl
  | cons item items ih => exact ih (p.gc item)

@[simp] theorem gcAll_stats : (p.gcAll items).stats = p.stats := by
  induction items generalizing p with
  | nil => rfl
  | cons item items ih => exact ih (p.gc item)

@[simp] theorem gcAll_mallocs : (p.gcAll items).mallocs = p.mallocs := by
  induction items generalizing p with
  | nil => rfl
  | cons item items ih => exact ih (p.gc item)

@[simp] theorem gcAll_constructed : (p.gcAll items).constructed = p.constructed := by
  induction items generalizing p with
  | nil => rfl
  | cons item items ih => exact ih (p.gc item)

@[simp] theorem gcAll_activeCnt : (p.gcAll items).activeCnt = p.activeCnt - items.length := by
  induction items generalizing p with
  | nil => simp
  | cons item items ih =>
      rw [gcAll_cons, ih (p.gc item)]
      simp only [gc, recycle, countDown, List.length_cons]
      omega

@[simp] theorem gcAll_memPool :
    (p.gcAll items).memPool = (items.map (·.block)).reverse ++ p.memPool := by
  induction items generalizing p with
  | nil => rfl
  | cons item items ih =>
      rw [gcAll_cons, ih (p.gc item)]
      simp [gc, recycle, countDown]

@[simp] theorem gcAll_destroyed :
    (p.gcAll items).destroyed = items.reverse ++ p.destroyed := by
  induction items generalizing p with
  | nil => rfl
  | cons item items ih =>
      rw [gcAll_cons, ih (p.gc item)]
      simp [gc, recycle, countDown]

end gcAll

theorem with_idle_eq {p : ConnectionPool α} {l : List (ListItem α)} (h : p.idle = l) :
    ({ p with idle := l } : ConnectionPool α) = p := by
  subst h
  rfl

/-! ### The first loop -/

theorem sweepBody_next {o : ConnectionPoolOption} {clock : Clock} {s s' : Progress α}
    (h : sweepBody o clock s = .inl s') :
    ∃ front item, s.pool.idle = front ++ [item] ∧
      item.timedOut o (clock.read s.ticks) = true ∧
      s' = ⟨({ s.pool with idle := front } : ConnectionPool α).gc item, s.ticks + 1⟩ := by
  unfold sweepBody at h
  split at h
  · cases h
  · cases h
  · rename_i item p hsection
    obtain ⟨front, hidle, hexpired, rfl⟩ := sweepSection_expired hsection
    cases h
    exact ⟨front, item, hidle, hexpired, rfl⟩

theorem sweepBody_stop {o : ConnectionPoolOption} {clock : Clock} {s r : Progress α}
    (h : sweepBody o clock s = .inr r) :
    (s.pool.idle = [] ∧ r = s) ∨
      ∃ last, s.pool.idle.getLast? = some last ∧
        last.timedOut o (clock.read s.ticks) = false ∧
        r = { s with ticks := s.ticks + 1 } := by
  unfold sweepBody at h
  split at h
  · rename_i hsection
    cases h
    exact Or.inl ⟨sweepSection_exhausted hsection, rfl⟩
  · rename_i hsection
    obtain ⟨last, hlast, hfresh⟩ := sweepSection_unexpired hsection
    cases h
    exact Or.inr ⟨last, hlast, hfresh, rfl⟩
  · cases h

theorem sweepBody_shortens {o : ConnectionPoolOption} {clock : Clock} {s s' : Progress α}
    (h : sweepBody o clock s = .inl s') : s'.pool.idle.length < s.pool.idle.length := by
  obtain ⟨front, item, hidle, _, rfl⟩ := sweepBody_next h
  simp [gc, recycle, countDown, hidle]

/-- The first loop leaves with the state `sweep` computes. -/
theorem sweep_loop (o : ConnectionPoolOption) (clock : Clock) (s : Progress α) :
    Loop (sweepBody o clock) s (sweep o clock s) := by
  have hfuel : s.pool.idle.length < s.pool.idle.length + 1 := Nat.lt_succ_self _
  exact loop_runLoop id (fun s : Progress α => s.pool.idle.length)
    (fun _ _ h => sweepBody_shortens h) hfuel

/-- The first loop took `gone` off the back, one node after the other, and
left `kept`, whose last node had not timed out when it was tested. -/
structure Swept.Result (o : ConnectionPoolOption) (clock : Clock) (s r : Progress α)
    (kept gone : List (ListItem α)) : Prop where
  split : s.pool.idle = kept ++ gone.reverse
  pool : r.pool = ({ s.pool with idle := kept } : ConnectionPool α).gcAll gone
  ticks : r.ticks = s.ticks + gone.length + (if kept = [] then 0 else 1)
  expired : ∀ i (h : i < gone.length), gone[i].timedOut o (clock.read (s.ticks + i)) = true
  unexpired : ∀ last, kept.getLast? = some last →
    last.timedOut o (clock.read (s.ticks + gone.length)) = false

theorem sweep_result (o : ConnectionPoolOption) (clock : Clock) (s : Progress α) :
    ∃ kept gone, Swept.Result o clock s (sweep o clock s) kept gone := by
  have hloop := sweep_loop o clock s
  generalize sweep o clock s = r at hloop
  induction hloop with
  | @stop s r hstop =>
      rcases sweepBody_stop hstop with ⟨hidle, rfl⟩ | ⟨last, hlast, hfresh, rfl⟩
      · refine ⟨[], [], by simp [hidle], ?_, by simp, by simp, by simp⟩
        exact (with_idle_eq hidle).symm
      · have hne : s.pool.idle ≠ [] := by
          intro hempty
          simp [hempty] at hlast
        refine ⟨s.pool.idle, [], by simp, rfl, by simp [hne], by simp, ?_⟩
        intro last' hlast'
        cases hlast.symm.trans hlast'
        simpa using hfresh
  | @next s s' r hnext _ ih =>
      obtain ⟨front, item, hidle, hexpired, rfl⟩ := sweepBody_next hnext
      obtain ⟨kept, gone, hres⟩ := ih
      refine ⟨kept, item :: gone, ?_, ?_, ?_, ?_, ?_⟩
      · have hfront : front = kept ++ gone.reverse := hres.split
        simp [hidle, hfront]
      · exact hres.pool
      · have := hres.ticks
        simp only [List.length_cons] at this ⊢
        omega
      · intro i hi
        cases i with
        | zero => simpa using hexpired
        | succ i =>
            have hrest := hres.expired i (by simpa using hi)
            simpa [Nat.add_assoc, Nat.add_comm 1] using hrest
      · intro last hlast
        have hrest := hres.unexpired last hlast
        simpa [Nat.add_assoc, Nat.add_comm 1] using hrest

/-! ### The second loop -/

theorem scanBody_next {o : ConnectionPoolOption} {clock : Clock} {s s' : Progress α}
    (h : scanBody o clock s = .inl s') :
    ∃ item behind, s.pool.idle = item :: behind ∧
      item.withinLifeTime o (clock.read s.ticks) = false ∧
      s' = ⟨({ s.pool with idle := behind } : ConnectionPool α).gc item,
        s.ticks + lifeReads o⟩ := by
  unfold scanBody at h
  split at h
  · cases h
  · cases h
  · rename_i item p hsection
    obtain ⟨behind, hidle, hlife, rfl⟩ := scanSection_overage hsection
    cases h
    exact ⟨item, behind, hidle, hlife, rfl⟩

theorem scanBody_stop {o : ConnectionPoolOption} {clock : Clock} {s r : Progress α}
    {found : Option (ListItem α)} (h : scanBody o clock s = .inr (found, r)) :
    (s.pool.idle = [] ∧ found = none ∧ r = s) ∨
      ∃ item behind, s.pool.idle = item :: behind ∧ found = some item ∧
        item.withinLifeTime o (clock.read s.ticks) = true ∧
        r = ⟨{ s.pool with idle := behind }, s.ticks + lifeReads o⟩ := by
  unfold scanBody at h
  split at h
  · rename_i hsection
    cases h
    exact Or.inl ⟨scanSection_exhausted hsection, rfl, rfl⟩
  · rename_i item p hsection
    obtain ⟨behind, hidle, hlife, rfl⟩ := scanSection_usable hsection
    cases h
    exact Or.inr ⟨item, behind, hidle, rfl, hlife, rfl⟩
  · cases h

theorem scanBody_shortens {o : ConnectionPoolOption} {clock : Clock} {s s' : Progress α}
    (h : scanBody o clock s = .inl s') : s'.pool.idle.length < s.pool.idle.length := by
  obtain ⟨item, behind, hidle, _, rfl⟩ := scanBody_next h
  simp [gc, recycle, countDown, hidle]

theorem scan_loop (o : ConnectionPoolOption) (clock : Clock) (s : Progress α) :
    Loop (scanBody o clock) s (scan o clock s) := by
  have hfuel : s.pool.idle.length < s.pool.idle.length + 1 := Nat.lt_succ_self _
  exact loop_runLoop _ (fun s : Progress α => s.pool.idle.length)
    (fun _ _ h => scanBody_shortens h) hfuel

/-- The second loop took `aged` off the front, each too old when it was
tested. It stopped at the first node within its lifetime, with `behind` left
in the list, or at the end of the list. -/
structure Scanned.Result (o : ConnectionPoolOption) (clock : Clock) (s r : Progress α)
    (aged : List (ListItem α)) (found : Option (ListItem α)) (behind : List (ListItem α)) :
    Prop where
  split : s.pool.idle = aged ++ found.toList ++ behind
  none_behind : found = none → behind = []
  pool : r.pool = ({ s.pool with idle := behind } : ConnectionPool α).gcAll aged
  ticks : r.ticks = s.ticks + (aged.length + found.toList.length) * lifeReads o
  overage : ∀ i (h : i < aged.length),
    aged[i].withinLifeTime o (clock.read (s.ticks + i * lifeReads o)) = false
  usable : ∀ item ∈ found,
    item.withinLifeTime o (clock.read (s.ticks + aged.length * lifeReads o)) = true

theorem scan_result (o : ConnectionPoolOption) (clock : Clock) (s : Progress α) :
    ∃ aged behind, Scanned.Result o clock s (scan o clock s).2 aged (scan o clock s).1 behind := by
  have hloop := scan_loop o clock s
  generalize scan o clock s = r at hloop
  induction hloop with
  | @stop s r hstop =>
      obtain ⟨found, r⟩ := r
      rcases scanBody_stop hstop with
        ⟨hidle, rfl, rfl⟩ | ⟨item, behind, hidle, rfl, hlife, rfl⟩
      · refine ⟨[], [], by simp [hidle], fun _ => rfl, ?_, by simp, by simp, by simp⟩
        exact (with_idle_eq hidle).symm
      · refine ⟨[], behind, by simp [hidle], by simp, rfl, by simp, by simp, ?_⟩
        intro item' hitem'
        cases hitem'
        simpa using hlife
  | @next s s' r hnext _ ih =>
      obtain ⟨item, behind', hidle, hlife, rfl⟩ := scanBody_next hnext
      obtain ⟨aged, behind, hres⟩ := ih
      refine ⟨item :: aged, behind, ?_, hres.none_behind, hres.pool, ?_, ?_, ?_⟩
      · have hbehind : behind' = aged ++ r.1.toList ++ behind := hres.split
        simp [hidle, hbehind]
      · rw [hres.ticks]
        simp only [List.length_cons]
        ring
      · intro i hi
        cases i with
        | zero => simpa using hlife
        | succ i =>
            have hrest := hres.overage i (by simpa using hi)
            simpa [Nat.add_mul, Nat.add_assoc, Nat.add_comm (lifeReads o)] using hrest
      · intro item' hitem'
        have hrest := hres.usable item' hitem'
        simpa [Nat.add_mul, Nat.add_assoc, Nat.add_comm (lifeReads o)] using hrest

/-! ### `GetNewInstance` and the whole calls -/

/-- The block comes from the free list, or from `malloc` when that is empty. -/
inductive Obtains (p : ConnectionPool α) : Block → ConnectionPool α → Prop where
  | recycled (block : Block) (rest : List Block) :
      p.memPool = block :: rest → Obtains p block { p with memPool := rest }
  | allocated : p.memPool = [] → Obtains p p.mallocs { p with mallocs := p.mallocs + 1 }

/-- The node `GetNewInstance` builds in a block. -/
def newItem (p : ConnectionPool α) (clock : Clock) (ticks : Nat) (block : Block) (object : α) :
    ListItem α :=
  ⟨block, p.constructed, (clock.read ticks).toInt64, (clock.read (ticks + 1)).toInt64, object⟩

/-- The ways `GetNewInstance` can end. -/
inductive Created (clock : Clock) (env : CallEnv α) (s : Progress α) : GetResult α → Prop where
  | outOfMemory : s.pool.memPool = [] → env.malloc = false →
      Created clock env s ⟨s.pool.mallocFailed, none, s.ticks⟩
  | ready (block : Block) (p : ConnectionPool α) (object : α) : Obtains s.pool block p →
      env.Builds object →
      Created clock env s
        ⟨{ p with activeCnt := p.activeCnt + 1, constructed := p.constructed + 1 },
          some (p.newItem clock s.ticks block object), s.ticks + 2⟩
  | refused (block : Block) (p : ConnectionPool α) (object : α) : Obtains s.pool block p →
      (∃ handler ∈ env.init, handler env.fresh = (false, object)) →
      Created clock env s
        ⟨({ p with activeCnt := p.activeCnt + 1, constructed := p.constructed + 1 } :
            ConnectionPool α).gc (p.newItem clock s.ticks block object), none, s.ticks + 2⟩

theorem build_created {clock : Clock} {env : CallEnv α} {s : Progress α} {block : Block}
    {p : ConnectionPool α} (hblock : Obtains s.pool block p) :
    Created clock env s (build clock env ⟨p, s.ticks⟩ block) := by
  unfold build
  cases hinit : env.init with
  | none => exact .ready block p env.fresh hblock (Or.inl ⟨hinit, rfl⟩)
  | some handler =>
      cases hrun : handler env.fresh with
      | mk ok object =>
          cases ok with
          | true =>
              simp only [construct, hrun]
              exact .ready block p object hblock (Or.inr ⟨handler, hinit, hrun⟩)
          | false =>
              simp only [construct, hrun]
              exact .refused block p object hblock ⟨handler, hinit, hrun⟩

theorem getNewInstance_created (clock : Clock) (env : CallEnv α) (s : Progress α) :
    Created clock env s (getNewInstance clock env s) := by
  unfold getNewInstance
  cases htake : s.pool.takeBlock with
  | mk found p =>
      cases found with
      | some block =>
          obtain ⟨rest, hpool, rfl⟩ := takeBlock_some htake
          exact build_created (.recycled block rest hpool)
      | none =>
          obtain ⟨hpool, rfl⟩ := takeBlock_none htake
          cases hmalloc : env.malloc with
          | true => exact build_created (.allocated hpool)
          | false => exact .outOfMemory hpool hmalloc

theorem get_refused {o : ConnectionPoolOption} (clock : Clock) (env : CallEnv α)
    {p : ConnectionPool α} (h : p.admits o = false) :
    p.get o clock env = ⟨p.refuse, none, 0⟩ := by
  simp [get, h]

/-- A `Get` that passes the test returns the idle connection the second loop
found, or what `GetNewInstance` returns. -/
theorem get_admitted {o : ConnectionPoolOption} (clock : Clock) (env : CallEnv α)
    {p : ConnectionPool α} (h : p.admits o = true) :
    (∃ item s, scan o clock (expire o clock p) = (some item, s) ∧
      p.get o clock env = ⟨s.pool, some item, s.ticks⟩) ∨
    ∃ s, scan o clock (expire o clock p) = (none, s) ∧
      p.get o clock env = getNewInstance clock env s := by
  cases hscan : scan o clock (expire o clock p) with
  | mk found s =>
      cases found with
      | some item => exact Or.inl ⟨item, s, rfl, by simp [get, h, hscan]⟩
      | none => exact Or.inr ⟨s, rfl, by simp [get, h, hscan]⟩

theorem admits_iff (o : ConnectionPoolOption) (p : ConnectionPool α) :
    p.admits o = true ↔ (0 < o.maxActive → p.activeCnt < o.maxActive) := by
  simp only [admits, Bool.not_eq_true', Bool.and_eq_false_iff, decide_eq_false_iff_not]
  omega

/-! ### What a call of `Get` does -/

theorem gcAll_with_idle (p : ConnectionPool α) (items l : List (ListItem α)) :
    ({ p.gcAll items with idle := l } : ConnectionPool α) =
      ({ p with idle := l } : ConnectionPool α).gcAll items := by
  induction items generalizing p with
  | nil => rfl
  | cons item items ih => exact ih (p.gc item)

/-- Only a positive limit makes a connection too old. -/
theorem lifeReads_of_overage {o : ConnectionPoolOption} {now : UInt64} {item : ListItem α}
    (h : item.withinLifeTime o now = false) : lifeReads o = 1 := by
  unfold lifeReads
  split
  · rename_i hnone
    simp [ListItem.withinLifeTime, hnone] at h
  · rfl

theorem withinLifeTime_of_unlimited {o : ConnectionPoolOption} (h : lifeReads o = 0)
    (now : UInt64) (item : ListItem α) : item.withinLifeTime o now = true := by
  unfold lifeReads at h
  split at h
  · rename_i hnone
    simp [ListItem.withinLifeTime, hnone]
  · cases h

theorem lifeReads_cases (o : ConnectionPoolOption) : lifeReads o = 0 ∨ lifeReads o = 1 := by
  unfold lifeReads
  split
  · exact Or.inl rfl
  · exact Or.inr rfl

/-- How a `Get` divides the idle list: `aged` leaves at the front, `gone` at
the back in this order, and `kept` is what the loops leave in between. The
first loop has taken `swept` readings. -/
structure Cleared (o : ConnectionPoolOption) (clock : Clock) (p : ConnectionPool α)
    (aged kept gone : List (ListItem α)) (swept : Nat) : Prop where
  split : p.idle = aged ++ kept ++ gone.reverse
  readings : swept = gone.length + if 0 < o.idleTimeoutMs ∧ aged ++ kept ≠ [] then 1 else 0
  expired : ∀ i (h : i < gone.length),
    0 < o.idleTimeoutMs ∧ gone[i].timedOut o (clock.read i) = true
  unexpired : 0 < o.idleTimeoutMs → ∀ last, (aged ++ kept).getLast? = some last →
    last.timedOut o (clock.read gone.length) = false
  overage : ∀ i (h : i < aged.length),
    aged[i].withinLifeTime o (clock.read (swept + i)) = false

/-- The pool after both loops. -/
def cleared (p : ConnectionPool α) (aged behind gone : List (ListItem α)) : ConnectionPool α :=
  (({ p with idle := behind } : ConnectionPool α).gcAll gone).gcAll aged

inductive GetOutcome (o : ConnectionPoolOption) (clock : Clock) (env : CallEnv α)
    (p : ConnectionPool α) : GetResult α → Prop where
  | refused : p.admits o = false → GetOutcome o clock env p ⟨p.refuse, none, 0⟩
  | reused (aged behind gone : List (ListItem α)) (item : ListItem α) (swept ticks : Nat) :
      p.admits o = true → Cleared o clock p aged (item :: behind) gone swept →
      item.withinLifeTime o (clock.read (swept + aged.length)) = true →
      ticks = swept + (aged.length + 1) * lifeReads o →
      GetOutcome o clock env p ⟨p.cleared aged behind gone, some item, ticks⟩
  | created (aged gone : List (ListItem α)) (swept ticks : Nat) (r : GetResult α) :
      p.admits o = true → Cleared o clock p aged [] gone swept →
      ticks = swept + aged.length * lifeReads o →
      Created clock env ⟨p.cleared aged [] gone, ticks⟩ r →
      GetOutcome o clock env p r

theorem expire_result (o : ConnectionPoolOption) (clock : Clock) (p : ConnectionPool α) :
    ∃ kept gone, p.idle = kept ++ gone.reverse ∧
      (expire o clock p).pool = ({ p with idle := kept } : ConnectionPool α).gcAll gone ∧
      (expire o clock p).ticks =
        gone.length + (if 0 < o.idleTimeoutMs ∧ kept ≠ [] then 1 else 0) ∧
      (∀ i (h : i < gone.length),
        0 < o.idleTimeoutMs ∧ gone[i].timedOut o (clock.read i) = true) ∧
      (0 < o.idleTimeoutMs → ∀ last, kept.getLast? = some last →
        last.timedOut o (clock.read gone.length) = false) := by
  unfold expire
  split
  · rename_i hlimit
    obtain ⟨kept, gone, hres⟩ := sweep_result o clock ⟨p, 0⟩
    refine ⟨kept, gone, hres.split, hres.pool, ?_, ?_, ?_⟩
    · have hticks := hres.ticks
      rw [Nat.zero_add] at hticks
      rw [hticks]
      by_cases hkept : kept = [] <;> simp [hkept, hlimit]
    · intro i hi
      have hexpired := hres.expired i hi
      rw [Nat.zero_add] at hexpired
      exact ⟨hlimit, hexpired⟩
    · intro _ last hlast
      have hfresh := hres.unexpired last hlast
      rwa [Nat.zero_add] at hfresh
  · rename_i hlimit
    refine ⟨p.idle, [], by simp, rfl, by simp [hlimit], by simp, fun h => absurd h hlimit⟩

theorem get_outcome (o : ConnectionPoolOption) (clock : Clock) (env : CallEnv α)
    (p : ConnectionPool α) : GetOutcome o clock env p (p.get o clock env) := by
  cases hadmits : p.admits o with
  | false =>
      rw [get_refused clock env hadmits]
      exact .refused hadmits
  | true =>
      obtain ⟨kept, gone, hsplit, hpool, hreads, hexpired, hunexpired⟩ := expire_result o clock p
      obtain ⟨aged, behind, hscan⟩ := scan_result o clock (expire o clock p)
      have hkept : kept = aged ++ (scan o clock (expire o clock p)).1.toList ++ behind := by
        have := hscan.split
        rwa [hpool, gcAll_idle] at this
      have hcleared : (scan o clock (expire o clock p)).2.pool = p.cleared aged behind gone := by
        rw [hscan.pool, hpool, gcAll_with_idle]
        rfl
      have hoverage : ∀ i (h : i < aged.length),
          aged[i].withinLifeTime o (clock.read ((expire o clock p).ticks + i)) = false := by
        intro i hi
        have haged := hscan.overage i hi
        rwa [lifeReads_of_overage haged, Nat.mul_one] at haged
      rcases get_admitted clock env hadmits with
        ⟨item, s, hfound, hget⟩ | ⟨s, hfound, hget⟩
      · rw [hfound] at hscan hkept hcleared
        rw [hget]
        dsimp only at hcleared
        rw [hcleared]
        refine .reused aged behind gone item (expire o clock p).ticks s.ticks hadmits
          ⟨?_, ?_, hexpired, ?_, hoverage⟩ ?_ hscan.ticks
        · simpa [hkept] using hsplit
        · simpa [hkept] using hreads
        · simpa [hkept] using hunexpired
        · have husable := hscan.usable item rfl
          rcases lifeReads_cases o with hnone | hone
          · exact withinLifeTime_of_unlimited hnone _ item
          · rwa [hone, Nat.mul_one] at husable
      · rw [hfound] at hscan hkept hcleared
        have hbehind := hscan.none_behind rfl
        subst hbehind
        rw [hget]
        dsimp only at hcleared
        refine .created aged gone (expire o clock p).ticks s.ticks _ hadmits
          ⟨?_, ?_, hexpired, ?_, hoverage⟩ hscan.ticks ?_
        · simpa [hkept] using hsplit
        · simpa [hkept] using hreads
        · simpa [hkept] using hunexpired
        · rw [← hcleared]
          exact getNewInstance_created clock env s

/-! ### Where connections come from and go -/

/-- The node was built by this call of `Get`. -/
structure NewlyBuilt (clock : Clock) (env : CallEnv α) (p : ConnectionPool α) (ticks : Nat)
    (item : ListItem α) : Prop where
  builds : env.Builds item.object
  serial : item.serial = p.constructed
  created : ∃ i ≤ ticks, item.createTime = (clock.read i).toInt64

@[simp] theorem cleared_idle (p : ConnectionPool α) (aged behind gone : List (ListItem α)) :
    (p.cleared aged behind gone).idle = behind := by
  simp [cleared]

@[simp] theorem cleared_constructed (p : ConnectionPool α)
    (aged behind gone : List (ListItem α)) :
    (p.cleared aged behind gone).constructed = p.constructed := by
  simp [cleared]

@[simp] theorem cleared_destroyed (p : ConnectionPool α)
    (aged behind gone : List (ListItem α)) :
    (p.cleared aged behind gone).destroyed = aged.reverse ++ (gone.reverse ++ p.destroyed) := by
  simp [cleared]

/-- What a `Get` leaves idle was idle; what it hands out was idle or is new;
what it destroys joins what was destroyed before. -/
structure GetEffect (clock : Clock) (env : CallEnv α) (p : ConnectionPool α)
    (r : GetResult α) : Prop where
  idle : List.Sublist r.pool.idle p.idle
  item : ∀ item ∈ r.item, item ∈ p.idle ∨ p.NewlyBuilt clock env r.ticks item
  destroyed : ∃ gone, r.pool.destroyed = gone ++ p.destroyed
  constructed : p.constructed ≤ r.pool.constructed

theorem get_effect (o : ConnectionPoolOption) (clock : Clock) (env : CallEnv α)
    (p : ConnectionPool α) : p.GetEffect clock env (p.get o clock env) := by
  have houtcome := get_outcome o clock env p
  generalize p.get o clock env = r at houtcome ⊢
  cases houtcome with
  | refused _ => exact ⟨List.Sublist.refl _, by simp, ⟨[], rfl⟩, le_rfl⟩
  | reused aged behind gone item swept ticks _ hcleared _ _ =>
      have hsplit := hcleared.split
      constructor
      · have hbehind : List.Sublist behind p.idle := by
          rw [hsplit]
          simpa using (List.sublist_cons_self item behind).trans
            ((List.sublist_append_right aged _).trans (List.sublist_append_left _ _))
        simpa using hbehind
      · intro item' hitem'
        cases hitem'
        left
        rw [hsplit]
        simp
      · exact ⟨aged.reverse ++ gone.reverse, by simp⟩
      · simp
  | created aged gone swept ticks r _ hcleared _ hcreated =>
      have hdestroyed : (p.cleared aged [] gone).destroyed =
          (aged.reverse ++ gone.reverse) ++ p.destroyed := by simp
      cases hcreated with
      | outOfMemory _ _ =>
          exact ⟨by simp [mallocFailed], by simp, ⟨_, hdestroyed⟩, by simp [mallocFailed]⟩
      | ready block p' object hblock hbuilds =>
          constructor
          · cases hblock <;> simp
          · intro item hitem
            cases hitem
            right
            refine ⟨hbuilds, ?_, ⟨ticks + 1, by simp, rfl⟩⟩
            cases hblock <;> simp [newItem]
          · exact ⟨aged.reverse ++ gone.reverse, by cases hblock <;> exact hdestroyed⟩
          · cases hblock <;> simp
      | refused block p' object hblock _ =>
          constructor
          · cases hblock <;> simp [gc, recycle, countDown]
          · simp
          · refine ⟨p'.newItem clock ticks block object :: (aged.reverse ++ gone.reverse), ?_⟩
            cases hblock <;> simp [gc, recycle, countDown]
          · cases hblock <;> simp [gc, recycle, countDown]

/-- After a `Put` the list holds what it held and at most the connection that
was put back; what is destroyed joins what was destroyed before. -/
structure PutEffect (now : UInt64) (item : ListItem α) (isOk : Bool) (p r : ConnectionPool α) :
    Prop where
  idle : ∀ x ∈ r.idle, x ∈ p.idle ∨ isOk = true ∧ x = item.stamp now
  destroyed : ∃ gone, r.destroyed = gone ++ p.destroyed
  constructed : r.constructed = p.constructed

theorem put_effect (o : ConnectionPoolOption) (now : UInt64) (item : ListItem α) (isOk : Bool)
    (p : ConnectionPool α) : PutEffect now item isOk p (p.put o now item isOk) := by
  cases isOk with
  | false => exact ⟨fun x hx => Or.inl hx, ⟨[item], rfl⟩, rfl⟩
  | true =>
      rcases pushSection_cases o p (item.stamp now) with
        ⟨hsection, _⟩ | ⟨kept, evicted, hsplit, _, hsection⟩
      · simp only [put, hsection]
        refine ⟨?_, ⟨[], rfl⟩, rfl⟩
        intro x hx
        rcases List.mem_cons.mp hx with rfl | hmem
        · exact Or.inr ⟨rfl, rfl⟩
        · exact Or.inl hmem
      · simp only [put, hsection]
        refine ⟨?_, ⟨[evicted], rfl⟩, rfl⟩
        intro x hx
        have hmem : x ∈ item.stamp now :: p.idle := by
          rw [hsplit]
          exact List.mem_append_left _ hx
        rcases List.mem_cons.mp hmem with rfl | hold
        · exact Or.inr ⟨rfl, rfl⟩
        · exact Or.inl hold

end ConnectionPool

end CloRedis
