import CloRedis.Library.Locks
import CloRedis.Library.Outcome
import CloRedis.Pool.Ownership

/-!
The two mutexes of a pool. Here every `lock` and `unlock` of `Get`, `Put` and
what they call is a step of its own: the deferred `unique_lock` of `Get` with
its flag, the `lock_guard`s with their scopes, and the destructor of the
`unique_lock` at every `return`. What happens between a lock and the unlock is
one of the sections of `State.lean`.
-/

namespace CloRedis

open Library

variable {T α : Type*}

inductive PoolLock where
  | mutex
  | poolMtx
  deriving DecidableEq, Repr

/-- The next statement of the call a thread is in. -/
inductive LockPc (α : Type*) where
  | idle
  | admission
  /-- `lck.lock()` in front of the test of the first loop -/
  | sweepLock
  | sweepHead
  /-- `lck.unlock()` in the body of the first loop -/
  | sweepPopped (item : ListItem α)
  /-- `lck.unlock()` behind the first loop -/
  | sweepDone
  /-- `lck.lock()` in front of the test of the second loop -/
  | scanLock
  | scanHead
  /-- `lck.unlock()` in front of the `return` in the second loop -/
  | scanUsable (item : ListItem α)
  /-- `lck.unlock()` in front of `Gc` in the second loop -/
  | scanOverage (item : ListItem α)
  /-- `lck.unlock()` behind the second loop -/
  | scanDone
  | takeLock
  | takeBlock
  | takeUnlock (found : Option Block)
  | malloc
  | countUp (block : Block)
  | construct (block : Block)
  /-- the end of the scope of `lck` -/
  | getExit (result : Option (ListItem α))
  | gcLock (item : ListItem α) (next : After)
  | gcPush (item : ListItem α) (next : After)
  | gcUnlock (next : After)
  | countDown (next : After)
  | stamp (item : ListItem α)
  | putLock (item : ListItem α)
  | putPush (item : ListItem α)
  | putUnlock (evicted : Option (ListItem α))
  deriving DecidableEq, Repr

structure LockedPool (T α : Type*) where
  pool : ConnectionPool α
  owner : PoolLock → Option T

/-- `lck` is the flag of the `unique_lock`, set while it owns `mutex_`. -/
structure LockThread (T α : Type*) where
  self : T
  pc : LockPc α := .idle
  lck : Bool := false
  held : List (ListItem α) := []

inductive LockStepError where
  | call (e : Disabled)
  | lock (e : LockError)

def After.lockPc : After → LockPc α
  | .sweep => .sweepLock
  | .scan => .scanLock
  | .returnNull => .getExit none
  | .finish => .idle

namespace LockThread

/-- A statement that touches no mutex. -/
def goes (t : LockThread T α) (next : LockPc α) (p : ConnectionPool α) (sh : LockedPool T α) :
    Except LockStepError (LockedPool T α × LockThread T α) :=
  .ok ({ sh with pool := p }, { t with pc := next })

variable [DecidableEq T]

def lock (t : LockThread T α) (l : PoolLock) (next : LockPc α) (sh : LockedPool T α) :
    Except LockStepError (LockedPool T α × LockThread T α) :=
  match acquire sh.owner t.self l with
  | .ok owner => .ok ({ sh with owner := owner }, { t with pc := next })
  | .error e => .error (.lock e)

def unlock (t : LockThread T α) (l : PoolLock) (next : LockPc α) (sh : LockedPool T α) :
    Except LockStepError (LockedPool T α × LockThread T α) :=
  match release sh.owner t.self l with
  | .ok owner => .ok ({ sh with owner := owner }, { t with pc := next })
  | .error e => .error (.lock e)

/-- `lck.lock()` -/
def lckLock (t : LockThread T α) (next : LockPc α) (sh : LockedPool T α) :
    Except LockStepError (LockedPool T α × LockThread T α) :=
  if t.lck then .error (.lock .relocked) else { t with lck := true }.lock .mutex next sh

/-- `lck.unlock()` -/
def lckUnlock (t : LockThread T α) (next : LockPc α) (sh : LockedPool T α) :
    Except LockStepError (LockedPool T α × LockThread T α) :=
  if t.lck then { t with lck := false }.unlock .mutex next sh else .error (.lock .notHeld)

/-- The destructor of `lck`, and the return to the caller. -/
def leave (t : LockThread T α) (result : Option (ListItem α)) (sh : LockedPool T α) :
    Except LockStepError (LockedPool T α × LockThread T α) :=
  let t := { t with held := result.toList ++ t.held }
  if t.lck then t.lckUnlock .idle sh else t.goes .idle sh.pool sh

def step (o : ConnectionPoolOption) (label : Label α) (sh : LockedPool T α)
    (t : LockThread T α) : Except LockStepError (LockedPool T α × LockThread T α) :=
  match t.pc, label with
  | .idle, .callGet => t.goes .admission sh.pool sh
  | .idle, .callPut block isOk =>
      match takeFirst (isBlock block) t.held with
      | none => .error (.call .notHeld)
      | some (item, rest) =>
          { t with held := rest }.goes (if isOk then .stamp item else .gcLock item .finish)
            sh.pool sh
  | .admission, .next =>
      -- the refusal returns before `lck` is constructed
      if sh.pool.admits o then
        t.goes (if 0 < o.idleTimeoutMs then .sweepLock else .scanLock) sh.pool sh
      else t.goes .idle sh.pool.refuse sh
  | .sweepLock, .next => t.lckLock .sweepHead sh
  | .sweepHead, .read now =>
      match sh.pool.sweepSection o now with
      | .exhausted => t.goes .sweepDone sh.pool sh
      | .unexpired => t.goes .sweepDone sh.pool sh
      | .expired item p => t.goes (.sweepPopped item) p sh
  | .sweepPopped item, .next => t.lckUnlock (.gcLock item .sweep) sh
  | .sweepDone, .next => t.lckUnlock .scanLock sh
  | .scanLock, .next => t.lckLock .scanHead sh
  | .scanHead, .read now =>
      match sh.pool.scanSection o now with
      | .exhausted => t.goes .scanDone sh.pool sh
      | .usable item p => t.goes (.scanUsable item) p sh
      | .overage item p => t.goes (.scanOverage item) p sh
  | .scanUsable item, .next => t.lckUnlock (.getExit (some item)) sh
  | .scanOverage item, .next => t.lckUnlock (.gcLock item .scan) sh
  | .scanDone, .next => t.lckUnlock .takeLock sh
  | .takeLock, .next => t.lock .poolMtx .takeBlock sh
  | .takeBlock, .next => t.goes (.takeUnlock sh.pool.takeBlock.1) sh.pool.takeBlock.2 sh
  | .takeUnlock (some block), .next => t.unlock .poolMtx (.countUp block) sh
  | .takeUnlock none, .next => t.unlock .poolMtx .malloc sh
  | .malloc, .malloc true => t.goes (.countUp sh.pool.mallocBlock.1) sh.pool.mallocBlock.2 sh
  | .malloc, .malloc false => t.goes (.getExit none) sh.pool.mallocFailed sh
  | .countUp block, .next => t.goes (.construct block) sh.pool.countUp sh
  | .construct block, .init active create ok object =>
      let (item, p) := sh.pool.construct block active create object
      t.goes (if ok then .getExit (some item) else .gcLock item .returnNull) p sh
  | .getExit result, .next => t.leave result sh
  | .gcLock item next, .next => t.lock .poolMtx (.gcPush item next) sh
  | .gcPush item next, .next => t.goes (.gcUnlock next) (sh.pool.recycle item) sh
  | .gcUnlock next, .next => t.unlock .poolMtx (.countDown next) sh
  | .countDown next, .next => t.goes next.lockPc sh.pool.countDown sh
  | .stamp item, .read now => t.goes (.putLock (item.stamp now)) sh.pool sh
  | .putLock item, .next => t.lock .mutex (.putPush item) sh
  | .putPush item, .next =>
      t.goes (.putUnlock (sh.pool.pushSection o item).1) (sh.pool.pushSection o item).2 sh
  | .putUnlock (some evicted), .next => t.unlock .mutex (.gcLock evicted .finish) sh
  | .putUnlock none, .next => t.unlock .mutex .idle sh
  | _, _ => .error (.call .elsewhere)

end LockThread

/-! ### What a thread holds at each statement -/

namespace LockPc

/-- The mutex a thread holds there. -/
def lock : LockPc α → Option PoolLock
  | .sweepHead | .sweepPopped _ | .sweepDone => some .mutex
  | .scanHead | .scanUsable _ | .scanOverage _ | .scanDone => some .mutex
  | .putPush _ | .putUnlock _ => some .mutex
  | .takeBlock | .takeUnlock _ => some .poolMtx
  | .gcPush _ _ | .gcUnlock _ => some .poolMtx
  | _ => none

/-- The mutex the statement locks. -/
def awaits : LockPc α → Option PoolLock
  | .sweepLock | .scanLock | .putLock _ => some .mutex
  | .takeLock | .gcLock _ _ => some .poolMtx
  | _ => none

/-- Whether the `unique_lock` owns `mutex_`. -/
def lck : LockPc α → Bool
  | .sweepHead | .sweepPopped _ | .sweepDone => true
  | .scanHead | .scanUsable _ | .scanOverage _ | .scanDone => true
  | _ => false

/-- Behind a `return`: the thread has left the call, or nothing but the
destructor of `lck` is still to run. -/
def Left : LockPc α → Prop
  | .idle | .getExit _ => True
  | _ => False

theorem lock_of_awaits {pc : LockPc α} {l : PoolLock} (h : pc.awaits = some l) :
    pc.lock = none := by
  cases pc <;> first | rfl | cases h

end LockPc

theorem After.lockPc_lock (next : After) : (next.lockPc : LockPc α).lock = none := by
  cases next <;> rfl

theorem After.lockPc_lck (next : After) : (next.lockPc : LockPc α).lck = false := by
  cases next <;> rfl

namespace LockThread

/-- A thread that holds what it should hold where it is. -/
structure Knows (sh : LockedPool T α) (t : LockThread T α) : Prop where
  lck : t.lck = t.pc.lck
  holds : ∀ l, sh.owner l = some t.self ↔ t.pc.lock = some l

/-- An error that is not a wrong operation on a mutex. -/
def Harmless : LockStepError → Prop
  | .call _ => True
  | .lock e => e = .blocked

variable [DecidableEq T]

/-- A step locks a mutex with empty hands, unlocks the mutex the thread holds,
or leaves the mutexes alone. -/
inductive Effect (sh : LockedPool T α) (t : LockThread T α) (sh' : LockedPool T α)
    (t' : LockThread T α) : Prop where
  | locks (l : PoolLock) : t.pc.lock = none → t'.pc.lock = some l →
      acquire sh.owner t.self l = .ok sh'.owner → Effect sh t sh' t'
  | unlocks (l : PoolLock) : t.pc.lock = some l → t'.pc.lock = none →
      release sh.owner t.self l = .ok sh'.owner → Effect sh t sh' t'
  | keeps : t'.pc.lock = t.pc.lock → sh'.owner = sh.owner → Effect sh t sh' t'

structure Stepped (sh : LockedPool T α) (t : LockThread T α) (r : LockedPool T α × LockThread T α) :
    Prop where
  self : r.2.self = t.self
  lck : r.2.lck = r.2.pc.lck
  effect : Effect sh t r.1 r.2

section Statements

variable {sh : LockedPool T α} {t t' : LockThread T α} {next : LockPc α} {l : PoolLock}

theorem goes_stepped (h : t.Knows sh) (p : ConnectionPool α) (held : List (ListItem α))
    (hlock : next.lock = t.pc.lock) (hlck : next.lck = t.pc.lck) :
    Ensures (Stepped sh t) Harmless ({ t with held := held }.goes next p sh) where
  self := rfl
  lck := h.lck.trans hlck.symm
  effect := .keeps hlock rfl

theorem lock_stepped (hpc : t.pc.lock = none) (hholds : ∀ l, sh.owner l = some t.self ↔
    t.pc.lock = some l) (hself : t'.self = t.self) (hlck : t'.lck = next.lck)
    (hnext : next.lock = some l) : Ensures (Stepped sh t) Harmless (t'.lock l next sh) := by
  unfold lock
  rw [hself]
  cases hacquire : acquire sh.owner t.self l with
  | ok owner => exact ⟨rfl, hlck, .locks l hpc hnext hacquire⟩
  | error e =>
      have hfree : sh.owner l ≠ some t.self := by
        rw [ne_eq, hholds l, hpc]
        exact nofun
      exact acquire_error hfree hacquire

theorem unlock_stepped (hpc : t.pc.lock = some l) (hholds : ∀ l, sh.owner l = some t.self ↔
    t.pc.lock = some l) (hself : t'.self = t.self) (hlck : t'.lck = next.lck)
    (hnext : next.lock = none) : Ensures (Stepped sh t) Harmless (t'.unlock l next sh) := by
  have hrelease := release_held ((hholds l).mpr hpc)
  unfold unlock
  rw [hself, hrelease]
  exact ⟨rfl, hlck, .unlocks l hpc hnext hrelease⟩

theorem lckLock_stepped (h : t.Knows sh) (hpc : t.pc.lock = none) (hlck : t.pc.lck = false)
    (hnext : next.lock = some .mutex) (howns : next.lck = true) :
    Ensures (Stepped sh t) Harmless (t.lckLock next sh) := by
  unfold lckLock
  rw [h.lck, hlck]
  exact lock_stepped hpc h.holds rfl howns.symm hnext

theorem lckUnlock_stepped (h : t.Knows sh) (hpc : t.pc.lock = some .mutex)
    (hlck : t.pc.lck = true) (hnext : next.lock = none) (howns : next.lck = false) :
    Ensures (Stepped sh t) Harmless (t.lckUnlock next sh) := by
  unfold lckUnlock
  rw [h.lck, hlck]
  exact unlock_stepped hpc h.holds rfl howns.symm hnext

theorem lock_enabled (hfree : sh.owner l = none) : ∃ r, t.lock l next sh = .ok r := by
  unfold lock
  rw [acquire_free t.self hfree]
  exact ⟨_, rfl⟩

theorem unlock_enabled (hheld : sh.owner l = some t.self) : ∃ r, t.unlock l next sh = .ok r := by
  unfold unlock
  rw [release_held hheld]
  exact ⟨_, rfl⟩

theorem lckLock_enabled (hlck : t.lck = false) (hfree : sh.owner .mutex = none) :
    ∃ r, t.lckLock next sh = .ok r := by
  unfold lckLock
  rw [hlck]
  exact lock_enabled hfree

theorem lckUnlock_enabled (hlck : t.lck = true) (hheld : sh.owner .mutex = some t.self) :
    ∃ r, t.lckUnlock next sh = .ok r := by
  unfold lckUnlock
  rw [hlck]
  exact unlock_enabled hheld

end Statements

/-- Every statement does to the mutexes what it may do there. -/
theorem step_stepped (o : ConnectionPoolOption) (label : Label α) {sh : LockedPool T α}
    {t : LockThread T α} (h : t.Knows sh) :
    Ensures (Stepped sh t) Harmless (t.step o label sh) := by
  obtain ⟨self, pc, lck, held⟩ := t
  cases pc with
  | idle =>
      cases label with
      | callGet => exact goes_stepped h _ held rfl rfl
      | callPut block isOk =>
          unfold step
          dsimp only
          cases takeFirst (isBlock block) held with
          | none => exact trivial
          | some r =>
              cases isOk with
              | true => exact goes_stepped h _ r.2 rfl rfl
              | false => exact goes_stepped h _ r.2 rfl rfl
      | _ => exact trivial
  | admission =>
      cases label with
      | next =>
          unfold step
          dsimp only
          split
          · split
            · exact goes_stepped h _ held rfl rfl
            · exact goes_stepped h _ held rfl rfl
          · exact goes_stepped h _ held rfl rfl
      | _ => exact trivial
  | sweepLock | scanLock =>
      cases label with
      | next => exact lckLock_stepped h rfl rfl rfl rfl
      | _ => exact trivial
  | sweepHead =>
      cases label with
      | read now =>
          unfold step
          dsimp only
          cases sh.pool.sweepSection o now with
          | exhausted => exact goes_stepped h _ held rfl rfl
          | unexpired => exact goes_stepped h _ held rfl rfl
          | expired item p => exact goes_stepped h p held rfl rfl
      | _ => exact trivial
  | sweepPopped _ | sweepDone | scanUsable _ | scanOverage _ | scanDone =>
      cases label with
      | next => exact lckUnlock_stepped h rfl rfl rfl rfl
      | _ => exact trivial
  | scanHead =>
      cases label with
      | read now =>
          unfold step
          dsimp only
          cases sh.pool.scanSection o now with
          | exhausted => exact goes_stepped h _ held rfl rfl
          | usable item p => exact goes_stepped h p held rfl rfl
          | overage item p => exact goes_stepped h p held rfl rfl
      | _ => exact trivial
  | takeLock | gcLock _ _ | putLock _ =>
      cases label with
      | next => exact lock_stepped rfl h.holds rfl h.lck rfl
      | _ => exact trivial
  | takeBlock | countUp _ | gcPush _ _ | putPush _ =>
      cases label with
      | next => exact goes_stepped h _ held rfl rfl
      | _ => exact trivial
  | takeUnlock found | putUnlock found =>
      cases label with
      | next =>
          cases found with
          | none => exact unlock_stepped rfl h.holds rfl h.lck rfl
          | some _ => exact unlock_stepped rfl h.holds rfl h.lck rfl
      | _ => cases found <;> exact trivial
  | malloc =>
      cases label with
      | malloc ok =>
          cases ok with
          | true => exact goes_stepped h _ held rfl rfl
          | false => exact goes_stepped h _ held rfl rfl
      | _ => exact trivial
  | construct _ =>
      cases label with
      | init active create ok object =>
          cases ok with
          | true => exact goes_stepped h _ held rfl rfl
          | false => exact goes_stepped h _ held rfl rfl
      | _ => exact trivial
  | getExit result =>
      cases label with
      | next =>
          -- the flag is down, so the destructor unlocks nothing
          have hlck : lck = false := h.lck
          subst hlck
          exact goes_stepped h _ (result.toList ++ held) rfl rfl
      | _ => exact trivial
  | gcUnlock _ =>
      cases label with
      | next => exact unlock_stepped rfl h.holds rfl h.lck rfl
      | _ => exact trivial
  | countDown next =>
      cases label with
      | next => exact goes_stepped h _ held next.lockPc_lock next.lockPc_lck
      | _ => exact trivial
  | stamp _ =>
      cases label with
      | read now => exact goes_stepped h _ held rfl rfl
      | _ => exact trivial

/-- In a call, a thread that does not wait for a mutex can go on. -/
theorem step_enabled (o : ConnectionPoolOption) (fresh : α) {sh : LockedPool T α}
    {t : LockThread T α} (h : t.Knows sh) (hcall : t.pc ≠ .idle)
    (hfree : ∀ l, t.pc.awaits = some l → sh.owner l = none) :
    ∃ label r, t.step o label sh = .ok r := by
  have hheld : ∀ l, t.pc.lock = some l → sh.owner l = some t.self := fun l hl => (h.holds l).mpr hl
  obtain ⟨self, pc, lck, held⟩ := t
  have hlck : lck = pc.lck := h.lck
  cases pc with
  | idle => exact absurd rfl hcall
  | admission =>
      refine ⟨.next, ?_⟩
      unfold step
      dsimp only
      split
      · exact ⟨_, rfl⟩
      · exact ⟨_, rfl⟩
  | sweepLock | scanLock => exact ⟨.next, lckLock_enabled hlck (hfree .mutex rfl)⟩
  | sweepHead | scanHead =>
      refine ⟨.read 0, ?_⟩
      unfold step
      dsimp only
      split
      · exact ⟨_, rfl⟩
      · exact ⟨_, rfl⟩
      · exact ⟨_, rfl⟩
  | sweepPopped _ | sweepDone | scanUsable _ | scanOverage _ | scanDone =>
      exact ⟨.next, lckUnlock_enabled hlck (hheld .mutex rfl)⟩
  | takeLock | gcLock _ _ => exact ⟨.next, lock_enabled (hfree .poolMtx rfl)⟩
  | takeBlock | countUp _ | gcPush _ _ | countDown _ | putPush _ => exact ⟨.next, _, rfl⟩
  | takeUnlock found =>
      refine ⟨.next, ?_⟩
      cases found with
      | none => exact unlock_enabled (hheld .poolMtx rfl)
      | some block => exact unlock_enabled (hheld .poolMtx rfl)
  | malloc => exact ⟨.malloc false, _, rfl⟩
  | construct _ => exact ⟨.init 0 0 true fresh, _, rfl⟩
  | getExit _ =>
      refine ⟨.next, ?_⟩
      subst hlck
      exact ⟨_, rfl⟩
  | gcUnlock _ => exact ⟨.next, unlock_enabled (hheld .poolMtx rfl)⟩
  | stamp _ => exact ⟨.read 0, _, rfl⟩
  | putLock _ => exact ⟨.next, lock_enabled (hfree .mutex rfl)⟩
  | putUnlock evicted =>
      refine ⟨.next, ?_⟩
      cases evicted with
      | none => exact unlock_enabled (hheld .mutex rfl)
      | some item => exact unlock_enabled (hheld .mutex rfl)

end LockThread

abbrev LockedThreads (T α : Type*) := Threads T (LockedPool T α) (LockThread T α)

namespace LockedThreads

/-- Nobody is in a call and the mutexes are free. What the threads hold is
arbitrary, so one may put back what another one got. -/
def start (p : ConnectionPool α) (held : T → List (ListItem α)) : LockedThreads T α where
  shared := ⟨p, fun _ => none⟩
  own t := { self := t, held := held t }

def step [DecidableEq T] (o : ConnectionPoolOption) (s : LockedThreads T α) (op : T × Label α) :
    Except LockStepError (LockedThreads T α) :=
  interleave (fun label sh t => LockThread.step o label sh t) s op

/-- The mutex a thread holds where it is. -/
def holds (s : LockedThreads T α) (t : T) (l : PoolLock) : Prop := (s.own t).pc.lock = some l

/-- The owners of the mutexes are the threads that should hold them where they
are, and no flag of a `unique_lock` lies. -/
structure Orderly (s : LockedThreads T α) : Prop where
  agree : Agree s.shared.owner s.holds
  self : ∀ t, (s.own t).self = t
  lck : ∀ t, (s.own t).lck = (s.own t).pc.lck

theorem start_orderly (p : ConnectionPool α) (held : T → List (ListItem α)) :
    (start p held).Orderly where
  agree := by
    intro l t
    constructor
    · exact nofun
    · exact nofun
  self := fun t => rfl
  lck := fun t => rfl

theorem Orderly.knows {s : LockedThreads T α} (hs : s.Orderly) (t : T) :
    (s.own t).Knows s.shared where
  lck := hs.lck t
  holds := by
    intro l
    rw [hs.self t]
    exact hs.agree l t

section Consequences

variable {s : LockedThreads T α}

theorem Orderly.one_lock (hs : s.Orderly) (t : T) :
    ¬(s.shared.owner .mutex = some t ∧ s.shared.owner .poolMtx = some t) := by
  rintro ⟨hmutex, hpool⟩
  rw [hs.agree] at hmutex hpool
  cases hmutex.symm.trans hpool

theorem Orderly.left_holds_nothing (hs : s.Orderly) {t : T} (hleft : (s.own t).pc.Left)
    (l : PoolLock) : s.shared.owner l ≠ some t := by
  intro howner
  rw [hs.agree, holds] at howner
  cases hpc : (s.own t).pc with
  | idle => simp [hpc, LockPc.lock] at howner
  | getExit result => simp [hpc, LockPc.lock] at howner
  | _ => simp [hpc, LockPc.Left] at hleft

end Consequences

variable [DecidableEq T] {o : ConnectionPoolOption} {s s' : LockedThreads T α}
  {ops : List (T × Label α)}

theorem step_orderly (hs : s.Orderly) {op : T × Label α} (hstep : step o s op = .ok s') :
    s'.Orderly := by
  obtain ⟨t, label⟩ := op
  obtain ⟨shared, own, hown, rfl⟩ := interleave_ok.mp hstep
  have hstepped := (LockThread.step_stepped o label (hs.knows t)).ok hown
  have hself : own.self = t := hstepped.self.trans (hs.self t)
  have hothers : ∀ u, u ≠ t → (Function.update s.own t own u) = s.own u :=
    fun u hu => Function.update_of_ne hu _ _
  have hkept : ∀ u, u ≠ t →
      holds ⟨shared, Function.update s.own t own⟩ u = s.holds u := by
    intro u hu
    unfold holds
    dsimp only
    rw [hothers u hu]
  have hhere : ∀ l, holds ⟨shared, Function.update s.own t own⟩ t l ↔ own.pc.lock = some l := by
    intro l
    unfold holds
    dsimp only
    rw [Function.update_self]
  constructor
  · have heffect := hstepped.effect
    cases heffect with
    | locks l hbefore hafter hacquire =>
        rw [hs.self t] at hacquire
        apply hs.agree.acquire hacquire _ hkept
        intro k
        rw [hhere, hafter, holds, hbefore, Option.some.injEq]
        simp [eq_comm]
    | unlocks l hbefore hafter hrelease =>
        rw [hs.self t] at hrelease
        apply hs.agree.release hrelease _ hkept
        intro k
        rw [hhere, hafter, holds, hbefore, Option.some.injEq]
        simp [eq_comm]
    | keeps hpc howner =>
        intro l u
        rw [howner, hs.agree l u]
        by_cases hu : u = t
        · subst hu
          rw [hhere, hpc]
          rfl
        · rw [hkept u hu]
  · apply (Function.forall_update_iff s.own fun u r => r.self = u).mpr
    exact ⟨hself, fun u _ => hs.self u⟩
  · apply (Function.forall_update_iff s.own fun u r => r.lck = r.pc.lck).mpr
    exact ⟨hstepped.lck, fun u _ => hs.lck u⟩

theorem orderly {p : ConnectionPool α} {held : T → List (ListItem α)}
    (hrun : run (step o) (start p held) ops = .ok s) : s.Orderly :=
  run_invariant (fun _ _ _ hs hstep => step_orderly hs hstep) (start_orderly p held) hrun

/-- No statement locks a mutex its thread holds or unlocks one it does not. -/
theorem Orderly.harmless (hs : s.Orderly) {op : T × Label α} {e : LockStepError}
    (hstep : step o s op = .error e) : LockThread.Harmless e := by
  have hstepped := LockThread.step_stepped o op.2 (hs.knows op.1)
  unfold step interleave at hstep
  cases hown : (s.own op.1).step o op.2 s.shared with
  | ok r => simp [hown, Except.map] at hstep
  | error e' =>
      have he : e' = e := by simpa [hown, Except.map] using hstep
      rw [← he]
      exact hstepped.error hown

theorem Orderly.progress (hs : s.Orderly) (o : ConnectionPoolOption) (fresh : α)
    (hcall : ∃ t, (s.own t).pc ≠ .idle) :
    ∃ t, (s.own t).pc ≠ .idle ∧ ∃ label s', step o s (t, label) = .ok s' := by
  apply hs.agree.progress (fun t l => (s.own t).pc.awaits = some l) _ _ _ hcall
  · intro t l hholds hidle
    rw [holds, hidle] at hholds
    cases hholds
  · intro t l k hholds hawaits
    rw [holds, LockPc.lock_of_awaits hawaits] at hholds
    cases hholds
  · intro t ht hfree
    obtain ⟨label, r, hown⟩ := LockThread.step_enabled o fresh (hs.knows t) ht hfree
    exact ⟨label, _, interleave_ok.mpr ⟨r.1, r.2, hown, rfl⟩⟩

/-- Whatever the calls, the options and the answers of the init handler, the
mutexes are used as they should be and no set of calls blocks itself. -/
theorem locks_in_order (o : ConnectionPoolOption) (fresh : α) (p : ConnectionPool α)
    (held : T → List (ListItem α)) (ops : List (T × Label α))
    (hrun : run (step o) (start p held) ops = .ok s) :
    (∀ op e, step o s op = .error (.lock e) → e = .blocked) ∧
    (∀ t, ¬(s.shared.owner .mutex = some t ∧ s.shared.owner .poolMtx = some t)) ∧
    (∀ t, (s.own t).pc.Left → ∀ l, s.shared.owner l ≠ some t) ∧
    ((∃ t, (s.own t).pc ≠ .idle) →
      ∃ t, (s.own t).pc ≠ .idle ∧ ∃ label s', step o s (t, label) = .ok s') := by
  have hs := orderly hrun
  exact ⟨fun op e hstep => hs.harmless hstep, hs.one_lock,
    fun t hleft l => hs.left_holds_nothing hleft l, hs.progress o fresh⟩

/-- One thread is inside the first loop and another one waits for it. -/
def contendingCalls : List (Bool × Label Unit) :=
  [(true, .callGet), (true, .next), (true, .next), (true, .read 0), (true, .next),
    (false, .callGet), (false, .next), (false, .next)]

theorem locks_in_order_of_contention :
    ∃ s : LockedThreads Bool Unit, s.shared.owner .mutex = some false ∧
      (s.own true).pc = .scanLock ∧
      (∀ op e, step { idleTimeoutMs := 5 } s op = .error (.lock e) → e = .blocked) ∧
      (∀ t, ¬(s.shared.owner .mutex = some t ∧ s.shared.owner .poolMtx = some t)) ∧
      (∀ t, (s.own t).pc.Left → ∀ l, s.shared.owner l ≠ some t) ∧
      ((∃ t, (s.own t).pc ≠ .idle) → ∃ t, (s.own t).pc ≠ .idle ∧
        ∃ label s', step { idleTimeoutMs := 5 } s (t, label) = .ok s') := by
  obtain ⟨s, hrun, howner, hpc⟩ : ∃ s : LockedThreads Bool Unit,
      run (step { idleTimeoutMs := 5 }) (start {} fun _ => []) contendingCalls = .ok s ∧
      s.shared.owner .mutex = some false ∧ (s.own true).pc = .scanLock :=
    ⟨_, rfl, rfl, rfl⟩
  exact ⟨s, howner, hpc, locks_in_order { idleTimeoutMs := 5 } () {} (fun _ => []) _ hrun⟩

/-- Two threads are never between the lock and the unlock of one mutex. -/
theorem mutual_exclusion {p : ConnectionPool α} {held : T → List (ListItem α)}
    (hrun : run (step o) (start p held) ops = .ok s) :
    ∀ t u l, s.holds t l → s.holds u l → t = u :=
  fun _ _ _ ht hu => (orderly hrun).agree.exclusive ht hu

theorem mutual_exclusion_of_contention :
    ∃ s : LockedThreads Bool Unit,
      (s.own false).pc.lock = some .mutex ∧ (s.own true).pc = .scanLock ∧
      ∀ t u l, s.holds t l → s.holds u l → t = u := by
  obtain ⟨s, hrun, hlock, hpc⟩ : ∃ s : LockedThreads Bool Unit,
      run (step { idleTimeoutMs := 5 }) (start {} fun _ => []) contendingCalls = .ok s ∧
      (s.own false).pc.lock = some .mutex ∧ (s.own true).pc = .scanLock :=
    ⟨_, rfl, rfl, rfl⟩
  exact ⟨s, hlock, hpc, mutual_exclusion hrun⟩

end LockedThreads

end CloRedis
