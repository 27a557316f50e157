import Mathlib.Logic.Function.Basic
import Mathlib.Tactic

/-!
Mutexes that know who holds them. It is an error to lock a mutex one holds
and to unlock one that one does not hold. The rules say what the owners are
after a lock and an unlock when every thread knows what it holds, and that
threads which never wait with a mutex in hand do not block each other for
good.
-/

namespace CloRedis.Library

variable {T L : Type*}

inductive LockError where
  | blocked
  | relocked
  | notHeld
  deriving DecidableEq, Repr

section Operations

variable [DecidableEq T] [DecidableEq L]

def acquire (owner : L → Option T) (t : T) (l : L) : Except LockError (L → Option T) :=
  match owner l with
  | none => .ok (Function.update owner l (some t))
  | some u => .error (if u = t then .relocked else .blocked)

def release (owner : L → Option T) (t : T) (l : L) : Except LockError (L → Option T) :=
  if owner l = some t then .ok (Function.update owner l none) else .error .notHeld

theorem acquire_free {owner : L → Option T} (t : T) {l : L} (hfree : owner l = none) :
    acquire owner t l = .ok (Function.update owner l (some t)) := by
  unfold acquire
  rw [hfree]

theorem acquire_ok {owner owner' : L → Option T} {t : T} {l : L}
    (h : acquire owner t l = .ok owner') :
    owner l = none ∧ owner' = Function.update owner l (some t) := by
  cases hfree : owner l with
  | none =>
      rw [acquire_free t hfree] at h
      cases h
      exact ⟨rfl, rfl⟩
  | some u => simp [acquire, hfree] at h

theorem acquire_error {owner : L → Option T} {t : T} {l : L} {e : LockError}
    (hother : owner l ≠ some t) (h : acquire owner t l = .error e) : e = .blocked := by
  unfold acquire at h
  cases howner : owner l with
  | none => simp [howner] at h
  | some u =>
      have hne : u ≠ t := by
        rintro rfl
        exact hother howner
      rw [howner] at h
      simp only [if_neg hne, Except.error.injEq] at h
      exact h.symm

theorem release_held {owner : L → Option T} {t : T} {l : L} (hheld : owner l = some t) :
    release owner t l = .ok (Function.update owner l none) :=
  if_pos hheld

theorem release_ok {owner owner' : L → Option T} {t : T} {l : L}
    (h : release owner t l = .ok owner') :
    owner l = some t ∧ owner' = Function.update owner l none := by
  by_cases hheld : owner l = some t
  · rw [release_held hheld] at h
    cases h
    exact ⟨hheld, rfl⟩
  · simp [release, hheld] at h

end Operations

/-- Every thread holds the mutexes it says it holds, and no others. -/
def Agree (owner : L → Option T) (holds : T → L → Prop) : Prop :=
  ∀ l t, owner l = some t ↔ holds t l

namespace Agree

variable {owner owner' : L → Option T} {holds holds' : T → L → Prop}

theorem exclusive (h : Agree owner holds) {t u : T} {l : L} (ht : holds t l) (hu : holds u l) :
    t = u := by
  rw [← h] at ht hu
  exact Option.some.inj (ht.symm.trans hu)

/-- When no thread waits with a mutex in hand and a thread that waits for
nothing it cannot have can go on, some active thread can go on. -/
theorem progress (h : Agree owner holds) {active enabled : T → Prop} (waits : T → L → Prop)
    (hactive : ∀ t l, holds t l → active t) (hwaits : ∀ t l k, holds t l → ¬waits t k)
    (henabled : ∀ t, active t → (∀ l, waits t l → owner l = none) → enabled t)
    (hsome : ∃ t, active t) : ∃ t, active t ∧ enabled t := by
  obtain ⟨t, ht⟩ := hsome
  by_cases hfree : ∀ l, waits t l → owner l = none
  · exact ⟨t, ht, henabled t ht hfree⟩
  · push Not at hfree
    obtain ⟨l, _, hheld⟩ := hfree
    obtain ⟨u, hu⟩ := Option.ne_none_iff_exists'.mp hheld
    -- whoever holds the mutex waits for nothing
    have hholds := (h l u).mp hu
    have hu := hactive u l hholds
    exact ⟨u, hu, henabled u hu fun k hk => absurd hk (hwaits u l k hholds)⟩

variable [DecidableEq L]

theorem update (h : Agree owner holds) {l : L} {who : Option T}
    (hhere : ∀ u, who = some u ↔ holds' u l) (helse : ∀ k, k ≠ l → ∀ u, holds' u k ↔ holds u k) :
    Agree (Function.update owner l who) holds' := by
  intro k u
  by_cases hkl : k = l
  · subst hkl
    rw [Function.update_self]
    exact hhere u
  · rw [Function.update_of_ne hkl, helse k hkl u]
    exact h k u

variable [DecidableEq T]

theorem acquire (h : Agree owner holds) {t : T} {l : L}
    (hlock : Library.acquire owner t l = .ok owner')
    (hself : ∀ k, holds' t k ↔ holds t k ∨ k = l) (hothers : ∀ u, u ≠ t → holds' u = holds u) :
    Agree owner' holds' := by
  obtain ⟨hfree, rfl⟩ := acquire_ok hlock
  apply h.update
  · intro u
    by_cases hut : u = t
    · subst hut
      simp [hself]
    · rw [hothers u hut, ← h, hfree]
      simp [Ne.symm hut]
  · intro k hkl u
    by_cases hut : u = t
    · subst hut
      simp [hself, hkl]
    · rw [hothers u hut]

theorem release (h : Agree owner holds) {t : T} {l : L}
    (hunlock : Library.release owner t l = .ok owner')
    (hself : ∀ k, holds' t k ↔ holds t k ∧ k ≠ l) (hothers : ∀ u, u ≠ t → holds' u = holds u) :
    Agree owner' holds' := by
  obtain ⟨hheld, rfl⟩ := release_ok hunlock
  apply h.update
  · intro u
    by_cases hut : u = t
    · subst hut
      simp [hself]
    · rw [hothers u hut, ← h, hheld]
      simp [Ne.symm hut]
  · intro k hkl u
    by_cases hut : u = t
    · subst hut
      simp [hself, hkl]
    · rw [hothers u hut]

end Agree

end CloRedis.Library
