import CloRedis.Library.Run
import Mathlib.Algebra.BigOperators.Group.Finset.Piecewise
import Mathlib.Algebra.Order.BigOperators.Group.Finset

/-!
Threads that share a state. Each thread has a state of its own; one step of
the system is one step of one thread, on the shared state and its own. A run
is a list of pairs of a thread and a label, so any scheduling is a run.

The balance rule turns a conservation law of a single thread's step into one
of the whole system: what the shared state holds plus what all threads hold
is what the shared state has handed out.
-/

namespace CloRedis.Library

variable {T σ ρ ι ε M : Type*}

structure Threads (T σ ρ : Type*) where
  shared : σ
  own : T → ρ

variable [DecidableEq T]

/-- One thread takes one step; the own states of the others stay. -/
def interleave (step : ι → σ → ρ → Except ε (σ × ρ)) (s : Threads T σ ρ)
    (op : T × ι) : Except ε (Threads T σ ρ) :=
  (step op.2 s.shared (s.own op.1)).map fun r =>
    ⟨r.1, Function.update s.own op.1 r.2⟩

theorem interleave_ok {step : ι → σ → ρ → Except ε (σ × ρ)} {s s' : Threads T σ ρ}
    {op : T × ι} :
    interleave step s op = .ok s' ↔
      ∃ shared own, step op.2 s.shared (s.own op.1) = .ok (shared, own) ∧
        s' = ⟨shared, Function.update s.own op.1 own⟩ := by
  unfold interleave
  cases step op.2 s.shared (s.own op.1) with
  | error e => simp [Except.map]
  | ok r =>
      obtain ⟨shared, own⟩ := r
      simp only [Except.map, Except.ok.injEq, Prod.mk.injEq]
      constructor
      · rintro rfl
        exact ⟨shared, own, ⟨rfl, rfl⟩, rfl⟩
      · rintro ⟨_, _, ⟨rfl, rfl⟩, rfl⟩
        rfl

theorem interleave_own {step : ι → σ → ρ → Except ε (σ × ρ)} {s s' : Threads T σ ρ}
    {op : T × ι} {t : T} (hother : op.1 ≠ t) (hop : interleave step s op = .ok s') :
    s'.own t = s.own t := by
  obtain ⟨shared, own, _, rfl⟩ := interleave_ok.mp hop
  exact Function.update_of_ne hother.symm _ _

/-- A thread that is elsewhere after a run has taken a first step in it. -/
theorem run_first_own {step : ι → σ → ρ → Except ε (σ × ρ)} {s s' : Threads T σ ρ}
    {ops : List (T × ι)} {t : T} (hrun : run (interleave step) s ops = .ok s')
    (hmoved : s'.own t ≠ s.own t) :
    ∃ before i after s₁ s₂, ops = before ++ (t, i) :: after ∧ (∀ op ∈ before, op.1 ≠ t) ∧
      run (interleave step) s before = .ok s₁ ∧ s₁.own t = s.own t ∧
      interleave step s₁ (t, i) = .ok s₂ ∧ run (interleave step) s₂ after = .ok s' := by
  induction ops generalizing s with
  | nil =>
      cases hrun
      exact absurd rfl hmoved
  | cons op ops ih =>
      obtain ⟨s₁, hop, hrest⟩ := run_cons_ok.mp hrun
      by_cases hown : op.1 = t
      · obtain ⟨u, i⟩ := op
        subst hown
        exact ⟨[], i, ops, s, s₁, rfl, by simp, rfl, rfl, hop, hrest⟩
      · have hstays := interleave_own hown hop
        rw [← hstays] at hmoved
        obtain ⟨before, i, after, s₂, s₃, rfl, hothers, hbefore, hsame, hstep, hafter⟩ :=
          ih hrest hmoved
        refine ⟨op :: before, i, after, s₂, s₃, rfl, ?_, run_cons_ok.mpr ⟨s₁, hop, hbefore⟩,
          hsame.trans hstays, hstep, hafter⟩
        intro other hother
        rcases List.mem_cons.mp hother with rfl | hmem
        · exact hown
        · exact hothers other hmem

variable [Fintype T]

/-- Replacing one thread's state changes a sum over all threads by the
difference of the two contributions. -/
theorem sum_own_update [AddCommMonoid M] (f : ρ → M) (own : T → ρ) (t : T) (r : ρ) :
    (∑ u, f (Function.update own t r u)) + f (own t) = (∑ u, f (own u)) + f r := by
  have hcomp : (fun u => f (Function.update own t r u)) =
      Function.update (fun u => f (own u)) t (f r) := by
    funext u
    by_cases h : u = t
    · subst h
      simp
    · simp [Function.update_of_ne h]
  rw [hcomp, Finset.sum_update_of_mem (Finset.mem_univ t),
    ← Finset.add_sum_erase Finset.univ (fun u => f (own u)) (Finset.mem_univ t),
    Finset.sdiff_singleton_eq_erase]
  abel

omit [DecidableEq T] in
/-- Natural numbers that add up to one are all zero but one. -/
theorem single_of_sum_eq_one {f : T → Nat} (h : ∑ t, f t = 1) :
    ∃ t, f t = 1 ∧ ∀ u, u ≠ t → f u = 0 := by
  classical
  obtain ⟨t, _, ht⟩ : ∃ t ∈ Finset.univ, f t ≠ 0 := by
    apply Finset.exists_ne_zero_of_sum_ne_zero
    omega
  have hsplit := Finset.add_sum_erase Finset.univ f (Finset.mem_univ t)
  have hrest : ∑ u ∈ Finset.univ.erase t, f u = 0 := by omega
  refine ⟨t, by omega, fun u hu => ?_⟩
  exact Finset.sum_eq_zero_iff.mp hrest u (Finset.mem_erase.mpr ⟨hu, Finset.mem_univ u⟩)

variable [AddCancelCommMonoid M] {step : ι → σ → ρ → Except ε (σ × ρ)}
  (held total : σ → M) (owned : ρ → M)

/-- A law kept in balance by a step of one thread is kept by the system. -/
theorem interleave_balance
    (hstep : ∀ i sh r sh' r', step i sh r = .ok (sh', r') →
      held sh' + owned r' + total sh = held sh + owned r + total sh')
    {s s' : Threads T σ ρ} {op : T × ι}
    (hs : held s.shared + ∑ t, owned (s.own t) = total s.shared)
    (hop : interleave step s op = .ok s') :
    held s'.shared + ∑ t, owned (s'.own t) = total s'.shared := by
  obtain ⟨shared, own, hown, rfl⟩ := interleave_ok.mp hop
  have hlaw := hstep _ _ _ _ _ hown
  have hsum := sum_own_update owned s.own op.1 own
  dsimp only
  generalize (∑ u, owned (Function.update s.own op.1 own u)) = after at hsum ⊢
  apply add_right_cancel (b := owned (s.own op.1) + total s.shared)
  calc
    held shared + after + (owned (s.own op.1) + total s.shared)
        = held shared + (after + owned (s.own op.1)) + total s.shared := by abel
    _ = (held shared + owned own + total s.shared) + ∑ t, owned (s.own t) := by
        rw [hsum]
        abel
    _ = total shared + owned (s.own op.1) +
          (held s.shared + ∑ t, owned (s.own t)) := by
        rw [hlaw]
        abel
    _ = total shared + (owned (s.own op.1) + total s.shared) := by
        rw [hs]
        abel

/-- A law that every single step keeps in balance holds after every run. -/
theorem run_balance
    (hstep : ∀ i sh r sh' r', step i sh r = .ok (sh', r') →
      held sh' + owned r' + total sh = held sh + owned r + total sh')
    {s s' : Threads T σ ρ} {ops : List (T × ι)}
    (hs : held s.shared + ∑ t, owned (s.own t) = total s.shared)
    (hrun : run (interleave step) s ops = .ok s') :
    held s'.shared + ∑ t, owned (s'.own t) = total s'.shared :=
  run_invariant (I := fun s : Threads T σ ρ =>
      held s.shared + ∑ t, owned (s.own t) = total s.shared)
    (fun _ _ _ hbal hop => interleave_balance held total owned hstep hbal hop) hs hrun

end CloRedis.Library
