import Mathlib.Tactic

/-!
The data of `internal/connection_pool.h` and its indivisible parts: every
section guarded by a mutex and every update of the counter is one definition
here, so that the sequential calls and the threads below are built from the
same pieces.

An idle list is the sequence of its nodes, front first. A block of memory is
named by the number of blocks `malloc` had handed out before it; nothing in
the pool depends on its address. `mallocs`, `constructed` and `destroyed` are
not fields of the class: they record how many blocks were ever obtained, how
many connections were ever built, and on which of them `Gc` ran.
-/

namespace CloRedis

/-- The time `gettimeofday` reports, a moment after the epoch whose
milliseconds fit the `long` they are computed in. -/
structure Timeval where
  tvSec : Nat
  tvUsec : Nat
  usec_lt : tvUsec < 1000000
  ms_lt : tvSec * 1000 + tvUsec / 1000 < 2 ^ 63

/-- `none` is a failing `gettimeofday`. -/
def getCurrentTimeMs : Option Timeval → UInt64
  | none => 0
  | some tv => UInt64.ofNat (tv.tvSec * 1000 + tv.tvUsec / 1000)

theorem getCurrentTimeMs_lt (tv : Option Timeval) : (getCurrentTimeMs tv).toNat < 2 ^ 63 := by
  cases tv with
  | none => decide
  | some tv =>
      have h := tv.ms_lt
      simp only [getCurrentTimeMs, UInt64.toNat_ofNat']
      omega

/-- What successive calls of `gettimeofday` report. -/
abbrev Clock := Nat → Option Timeval

def Clock.read (clock : Clock) (i : Nat) : UInt64 := getCurrentTimeMs (clock i)

/-- The readings left after the first `n`. -/
def Clock.after (clock : Clock) (n : Nat) : Clock := fun i => clock (n + i)

@[simp] theorem Clock.read_after (clock : Clock) (n i : Nat) :
    (clock.after n).read i = clock.read (n + i) := rfl

theorem Clock.read_lt (clock : Clock) (i : Nat) : (clock.read i).toNat < 2 ^ 63 :=
  getCurrentTimeMs_lt _

abbrev Block := Nat

structure ListItem (α : Type*) where
  block : Block
  serial : Nat
  activeTime : Int64
  createTime : Int64
  object : α
  deriving DecidableEq, Repr

/-- `NUMBER_UNLIMITED` -/
def numberUnlimited : Int := -1

structure ConnectionPoolOption where
  maxIdle : Int := numberUnlimited
  maxActive : Int := numberUnlimited
  idleTimeoutMs : Int64 := -1
  maxConnLifeTime : Int64 := -1
  deriving DecidableEq, Repr

structure ConnectionPoolStats where
  mallocFail : Int := 0
  overloadError : Int := 0
  deriving DecidableEq, Repr

structure ConnectionPool (α : Type*) where
  idle : List (ListItem α) := []
  memPool : List Block := []
  activeCnt : Int := 0
  stats : ConnectionPoolStats := {}
  mallocs : Nat := 0
  constructed : Nat := 0
  destroyed : List (ListItem α) := []
  deriving DecidableEq, Repr

variable {α : Type*}

/-- `active_time + idle_timeout_ms < now`: the sum of two signed numbers is
converted to unsigned before it is compared with the clock. -/
def ListItem.timedOut (o : ConnectionPoolOption) (now : UInt64) (item : ListItem α) : Bool :=
  (item.activeTime + o.idleTimeoutMs).toUInt64 < now

/-- The lifetime test of the second loop; the age is an unsigned difference. -/
def ListItem.withinLifeTime (o : ConnectionPoolOption) (now : UInt64) (item : ListItem α) : Bool :=
  o.maxConnLifeTime ≤ 0 || now - item.createTime.toUInt64 < o.maxConnLifeTime.toUInt64

namespace ConnectionPool

def connInPool (p : ConnectionPool α) : Int := p.idle.length

/-- The test at the top of `Get`. -/
def admits (o : ConnectionPoolOption) (p : ConnectionPool α) : Bool :=
  !(0 < o.maxActive && o.maxActive ≤ p.activeCnt)

def refuse (p : ConnectionPool α) : ConnectionPool α :=
  { p with stats := { p.stats with overloadError := p.stats.overloadError + 1 } }

def pushFront (p : ConnectionPool α) (item : ListItem α) : ConnectionPool α :=
  { p with idle := item :: p.idle }

def popFront (p : ConnectionPool α) : ConnectionPool α :=
  { p with idle := p.idle.tail }

def popBack (p : ConnectionPool α) : ConnectionPool α :=
  { p with idle := p.idle.dropLast }

/-- How a section of the first loop of `Get` ends. -/
inductive Swept (α : Type*) where
  | exhausted
  | unexpired
  | expired (item : ListItem α) (pool : ConnectionPool α)

/-- One section of the first loop: look at the back, pop it if it timed out.
The clock is read only when there is a node to test. -/
def sweepSection (o : ConnectionPoolOption) (now : UInt64) (p : ConnectionPool α) : Swept α :=
  match p.idle.getLast? with
  | none => .exhausted
  | some item => if item.timedOut o now then .expired item p.popBack else .unexpired

/-- How a section of the second loop of `Get` ends. -/
inductive Scanned (α : Type*) where
  | exhausted
  | usable (item : ListItem α) (pool : ConnectionPool α)
  | overage (item : ListItem α) (pool : ConnectionPool α)

/-- One section of the second loop: pop the front and test its lifetime. -/
def scanSection (o : ConnectionPoolOption) (now : UInt64) (p : ConnectionPool α) : Scanned α :=
  match p.idle.head? with
  | none => .exhausted
  | some item =>
      if item.withinLifeTime o now then .usable item p.popFront else .overage item p.popFront

/-- The section of `GetNewInstance` that looks for a recycled block. -/
def takeBlock (p : ConnectionPool α) : Option Block × ConnectionPool α :=
  match p.memPool with
  | [] => (none, p)
  | block :: rest => (some block, { p with memPool := rest })

/-- A successful `malloc`. -/
def mallocBlock (p : ConnectionPool α) : Block × ConnectionPool α :=
  (p.mallocs, { p with mallocs := p.mallocs + 1 })

def mallocFailed (p : ConnectionPool α) : ConnectionPool α :=
  { p with stats := { p.stats with mallocFail := p.stats.mallocFail + 1 } }

def countUp (p : ConnectionPool α) : ConnectionPool α :=
  { p with activeCnt := p.activeCnt + 1 }

/-- The two placement news: the node stamps both times, then the object is
built in the rest of the block. -/
def construct (p : ConnectionPool α) (block : Block) (active create : UInt64) (object : α) :
    ListItem α × ConnectionPool α :=
  (⟨block, p.constructed, active.toInt64, create.toInt64, object⟩,
    { p with constructed := p.constructed + 1 })

/-- The first half of `Gc`: run the destructors and give the block back. -/
def recycle (p : ConnectionPool α) (item : ListItem α) : ConnectionPool α :=
  { p with memPool := item.block :: p.memPool, destroyed := item :: p.destroyed }

/-- The second half of `Gc`. -/
def countDown (p : ConnectionPool α) : ConnectionPool α :=
  { p with activeCnt := p.activeCnt - 1 }

def gc (p : ConnectionPool α) (item : ListItem α) : ConnectionPool α :=
  (p.recycle item).countDown

/-- The section of `Put`: push the connection to the front and, when that
makes the list longer than `max_idle`, pop the back for eviction. -/
def pushSection (o : ConnectionPoolOption) (p : ConnectionPool α) (item : ListItem α) :
    Option (ListItem α) × ConnectionPool α :=
  let pushed := p.pushFront item
  if 0 < o.maxIdle ∧ o.maxIdle < pushed.connInPool then
    (pushed.idle.getLast?, pushed.popBack)
  else
    (none, pushed)

/-! ### What each section can do -/

theorem sweepSection_exhausted {o : ConnectionPoolOption} {now : UInt64} {p : ConnectionPool α}
    (h : p.sweepSection o now = .exhausted) : p.idle = [] := by
  unfold sweepSection at h
  split at h
  · rename_i hlast
    exact List.getLast?_eq_none_iff.mp hlast
  · split at h <;> cases h

theorem sweepSection_unexpired {o : ConnectionPoolOption} {now : UInt64} {p : ConnectionPool α}
    (h : p.sweepSection o now = .unexpired) :
    ∃ last, p.idle.getLast? = some last ∧ last.timedOut o now = false := by
  unfold sweepSection at h
  split at h
  · cases h
  · rename_i last hlast
    split at h
    · cases h
    · rename_i hfresh
      exact ⟨last, hlast, by simpa using hfresh⟩

theorem sweepSection_expired {o : ConnectionPoolOption} {now : UInt64} {p p' : ConnectionPool α}
    {item : ListItem α} (h : p.sweepSection o now = .expired item p') :
    ∃ front, p.idle = front ++ [item] ∧ item.timedOut o now = true ∧
      p' = { p with idle := front } := by
  unfold sweepSection at h
  split at h
  · cases h
  · rename_i last hlast
    obtain ⟨front, hidle⟩ := List.getLast?_eq_some_iff.mp hlast
    split at h
    · rename_i hexpired
      cases h
      exact ⟨front, hidle, hexpired, by simp [popBack, hidle]⟩
    · cases h

theorem scanSection_exhausted {o : ConnectionPoolOption} {now : UInt64} {p : ConnectionPool α}
    (h : p.scanSection o now = .exhausted) : p.idle = [] := by
  unfold scanSection at h
  split at h
  · rename_i hhead
    exact List.head?_eq_none_iff.mp hhead
  · split at h <;> cases h

theorem scanSection_usable {o : ConnectionPoolOption} {now : UInt64} {p p' : ConnectionPool α}
    {item : ListItem α} (h : p.scanSection o now = .usable item p') :
    ∃ behind, p.idle = item :: behind ∧ item.withinLifeTime o now = true ∧
      p' = { p with idle := behind } := by
  unfold scanSection at h
  split at h
  · cases h
  · rename_i first hhead
    obtain ⟨behind, hidle⟩ := List.head?_eq_some_iff.mp hhead
    split at h
    · rename_i hlife
      cases h
      exact ⟨behind, hidle, hlife, by simp [popFront, hidle]⟩
    · cases h

theorem scanSection_overage {o : ConnectionPoolOption} {now : UInt64} {p p' : ConnectionPool α}
    {item : ListItem α} (h : p.scanSection o now = .overage item p') :
    ∃ behind, p.idle = item :: behind ∧ item.withinLifeTime o now = false ∧
      p' = { p with idle := behind } := by
  unfold scanSection at h
  split at h
  · cases h
  · rename_i first hhead
    obtain ⟨behind, hidle⟩ := List.head?_eq_some_iff.mp hhead
    split at h
    · cases h
    · rename_i hlife
      cases h
      exact ⟨behind, hidle, by simpa using hlife, by simp [popFront, hidle]⟩

/-- The pushed connection is in front of the old list; either nothing leaves,
or the last of the longer list does because it exceeds `max_idle`. -/
theorem pushSection_cases (o : ConnectionPoolOption) (p : ConnectionPool α) (item : ListItem α) :
    (p.pushSection o item = (none, { p with idle := item :: p.idle }) ∧
      ¬(0 < o.maxIdle ∧ o.maxIdle < p.idle.length + 1)) ∨
    ∃ kept evicted, item :: p.idle = kept ++ [evicted] ∧
      (0 < o.maxIdle ∧ o.maxIdle < p.idle.length + 1) ∧
      p.pushSection o item = (some evicted, { p with idle := kept }) := by
  unfold pushSection
  by_cases hover : 0 < o.maxIdle ∧ o.maxIdle < (p.pushFront item).connInPool
  · right
    obtain ⟨kept, evicted, hsplit⟩ :=
      (List.eq_nil_or_concat' (item :: p.idle)).resolve_left (by simp)
    refine ⟨kept, evicted, hsplit, ?_, ?_⟩
    · simpa [pushFront, connInPool] using hover
    · simp only [hover, and_self, if_true]
      simp [pushFront, popBack, hsplit]
  · left
    refine ⟨?_, ?_⟩
    · simp only [hover, if_false]
      rfl
    · simpa [pushFront, connInPool] using hover

theorem takeBlock_none {p p' : ConnectionPool α} (h : p.takeBlock = (none, p')) :
    p.memPool = [] ∧ p' = p := by
  unfold takeBlock at h
  split at h
  · rename_i hempty
    cases h
    exact ⟨hempty, rfl⟩
  · cases h

theorem takeBlock_some {p p' : ConnectionPool α} {block : Block}
    (h : p.takeBlock = (some block, p')) :
    ∃ rest, p.memPool = block :: rest ∧ p' = { p with memPool := rest } := by
  unfold takeBlock at h
  split at h
  · cases h
  · rename_i block' rest hpool
    cases h
    exact ⟨rest, hpool, rfl⟩

end ConnectionPool

/-- `item->active_time = __get_current_time_ms()` -/
def ListItem.stamp (item : ListItem α) (now : UInt64) : ListItem α :=
  { item with activeTime := now.toInt64 }

end CloRedis
