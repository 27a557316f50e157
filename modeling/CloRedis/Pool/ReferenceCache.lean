import Mathlib.Tactic

/-!
What the pool is for, said without its code: a cache whose idle connections
form a sequence, the most recently returned first. Connections are elements of
any type, times elements of any ordered group; a call may read the clock
several times, and `now i` is its `i`-th reading.

A call that hands out a connection first drops those that timed out, then
looks from the front for one within its lifetime. It takes a reading for each
test, so the readings that judge a connection are those of this call and no
others. The relation leaves open how many of the connections that time out
during the call are dropped; it fixes which must be, which may be, and what is
handed out.
-/

namespace CloRedis.ReferenceCache

variable {C Time : Type*} [AddGroup Time] [LinearOrder Time]

structure Entry (C Time : Type*) where
  conn : C
  returned : Time
  created : Time

structure Limits (Time : Type*) where
  maxIdle : Int
  maxActive : Int
  idleTimeout : Time
  lifeTime : Time

structure Cache (C Time : Type*) where
  idle : List (Entry C Time) := []
  /-- The connections handed out, each with the time it was created. -/
  lent : List (C × Time) := []
  count : Int := 0
  destroyed : List C := []

inductive Event (C : Type*) where
  | got (result : Option C)
  | gave (conn : C) (isOk : Bool)
  | used

def Limits.TimedOut (L : Limits Time) (now : Time) (e : Entry C Time) : Prop :=
  0 < L.idleTimeout ∧ e.returned + L.idleTimeout < now

def Limits.OverAge (L : Limits Time) (now : Time) (e : Entry C Time) : Prop :=
  0 < L.lifeTime ∧ L.lifeTime ≤ now - e.created

def Limits.HasRoom (L : Limits Time) (c : Cache C Time) : Prop :=
  0 < L.maxActive → c.count < L.maxActive

/-- The readings one lifetime test takes. -/
def Limits.lifeReads (L : Limits Time) : Nat := if 0 < L.lifeTime then 1 else 0

/-- Every connection the cache knows or knew. -/
def Cache.conns (c : Cache C Time) : List C :=
  c.idle.map (·.conn) ++ c.lent.map Prod.fst ++ c.destroyed

/-- The idle sequence of a call falls into `aged`, destroyed at the front,
`kept`, and `expired`, destroyed at the back in this order. Nothing that timed
out by the first reading is left in front of `expired`. Each destroyed
connection failed its own test, at the reading taken for that test: the first
`swept` readings are one for each of `expired`, and one for the connection that
had not timed out, if there is a timeout and such a connection. -/
structure Turnover (L : Limits Time) (now : Nat → Time)
    (idle aged kept expired : List (Entry C Time)) (swept : Nat) : Prop where
  split : idle = aged ++ kept ++ expired.reverse
  readings : swept =
    expired.length + if 0 < L.idleTimeout ∧ aged ++ kept ≠ [] then 1 else 0
  timed_out_leave : ∀ e ∈ aged ++ kept, ¬L.TimedOut (now 0) e
  expired_tested : ∀ i (h : i < expired.length), L.TimedOut (now i) expired[i]
  aged_tested : ∀ i (h : i < aged.length), L.OverAge (now (swept + i)) aged[i]

/-- The cache after `aged` and `expired` are destroyed and `idle` is left. -/
def Cache.settle (c : Cache C Time) (idle aged expired : List (Entry C Time)) : Cache C Time where
  idle := idle
  lent := c.lent
  count := c.count - expired.length - aged.length
  destroyed := (aged.map (·.conn)).reverse ++ ((expired.map (·.conn)).reverse ++ c.destroyed)

/-- One call, with the number of readings it takes. A connection that is made
has not been in the cache before, and the second of the two readings taken for
it is when it was created. -/
inductive Step (L : Limits Time) (now : Nat → Time) (c : Cache C Time) :
    Event C → Nat → Cache C Time → Prop where
  | refused : 0 < L.maxActive → L.maxActive ≤ c.count → Step L now c (.got none) 0 c
  | reused (aged behind expired : List (Entry C Time)) (e : Entry C Time) (swept : Nat) :
      L.HasRoom c → Turnover L now c.idle aged (e :: behind) expired swept →
      ¬L.OverAge (now (swept + aged.length)) e →
      Step L now c (.got (some e.conn)) (swept + (aged.length + 1) * L.lifeReads)
        { c.settle behind aged expired with lent := (e.conn, e.created) :: c.lent }
  | created (aged expired : List (Entry C Time)) (swept reads : Nat) (conn : C) :
      L.HasRoom c → Turnover L now c.idle aged [] expired swept →
      reads = swept + aged.length * L.lifeReads → conn ∉ c.conns →
      Step L now c (.got (some conn)) (reads + 2)
        { c.settle [] aged expired with
          lent := (conn, now (reads + 1)) :: c.lent
          count := (c.settle [] aged expired).count + 1 }
  | outOfMemory (aged expired : List (Entry C Time)) (swept : Nat) :
      L.HasRoom c → Turnover L now c.idle aged [] expired swept →
      Step L now c (.got none) (swept + aged.length * L.lifeReads) (c.settle [] aged expired)
  | rejected (aged expired : List (Entry C Time)) (swept : Nat) (conn : C) :
      L.HasRoom c → Turnover L now c.idle aged [] expired swept → conn ∉ c.conns →
      Step L now c (.got none) (swept + aged.length * L.lifeReads + 2)
        { c.settle [] aged expired with
          destroyed := conn :: (c.settle [] aged expired).destroyed }
  | kept (e : Entry C Time) (lent : List (C × Time)) :
      c.lent.Perm ((e.conn, e.created) :: lent) → e.returned = now 0 →
      ¬(0 < L.maxIdle ∧ L.maxIdle < c.idle.length + 1) →
      Step L now c (.gave e.conn true) 1 { c with idle := e :: c.idle, lent := lent }
  | evicted (e last : Entry C Time) (front : List (Entry C Time)) (lent : List (C × Time)) :
      c.lent.Perm ((e.conn, e.created) :: lent) → e.returned = now 0 →
      0 < L.maxIdle ∧ L.maxIdle < c.idle.length + 1 → e :: c.idle = front ++ [last] →
      Step L now c (.gave e.conn true) 1
        { idle := front, lent := lent, count := c.count - 1,
          destroyed := last.conn :: c.destroyed }
  | discarded (conn : C) (created : Time) (lent : List (C × Time)) :
      c.lent.Perm ((conn, created) :: lent) →
      Step L now c (.gave conn false) 0
        { c with lent := lent, count := c.count - 1, destroyed := conn :: c.destroyed }
  | used (lent : List (C × Time)) :
      c.lent.Perm lent → Step L now c .used 0 { c with lent := lent }

/-- A step of a cache with a running clock: the readings of a call are the next
ones. -/
def TimedStep (L : Limits Time) (now : Nat → Time) (a : Nat × Cache C Time) (event : Event C)
    (b : Nat × Cache C Time) : Prop :=
  ∃ k, b.1 = a.1 + k ∧ Step L (fun i => now (a.1 + i)) a.2 event k b.2

/-- No step takes the count above the cap. -/
theorem Step.count_le {L : Limits Time} {now : Nat → Time} {c c' : Cache C Time} {event : Event C}
    {k : Nat} (h : Step L now c event k c') (hcap : 0 < L.maxActive)
    (hcount : c.count ≤ L.maxActive) : c'.count ≤ L.maxActive := by
  cases h with
  | refused _ _ => exact hcount
  | reused aged behind expired e swept hroom _ _ =>
      have := hroom hcap
      simp only [Cache.settle]
      omega
  | created aged expired swept reads conn hroom _ _ _ =>
      have := hroom hcap
      simp only [Cache.settle]
      omega
  | outOfMemory aged expired swept hroom _ =>
      have := hroom hcap
      simp only [Cache.settle]
      omega
  | rejected aged expired swept conn hroom _ _ =>
      have := hroom hcap
      simp only [Cache.settle]
      omega
  | kept e lent _ _ _ => exact hcount
  | evicted e last front lent _ _ _ _ =>
      dsimp only
      omega
  | discarded conn created lent _ =>
      dsimp only
      omega
  | used lent _ => exact hcount

end CloRedis.ReferenceCache
