import Mathlib.Tactic

/-!
Runs of a partial step function. A step may stop with an error, so a run is a
monadic fold in `Except`. The module gives the rules by which facts about one
step become facts about whole runs: an invariant rule, its variant for runs
whose steps all meet a condition, and a forward simulation.
-/

namespace CloRedis.Library

universe u

variable {σ τ ι κ ε : Type*}

/-- Run a list of operations from a state, stopping at the first error. -/
def run (step : σ → ι → Except ε σ) (s : σ) (ops : List ι) : Except ε σ :=
  ops.foldlM step s

@[simp] theorem run_nil (step : σ → ι → Except ε σ) (s : σ) :
    run step s [] = .ok s := rfl

theorem run_cons (step : σ → ι → Except ε σ) (s : σ) (op : ι) (ops : List ι) :
    run step s (op :: ops) = (step s op).bind (fun s' => run step s' ops) := by
  unfold run
  rw [List.foldlM_cons]
  rfl

/-- A value of `Except.bind` comes from a value of each part. -/
theorem bind_ok {α β : Type*} {x : Except ε α} {f : α → Except ε β} {b : β} :
    x.bind f = .ok b ↔ ∃ a, x = .ok a ∧ f a = .ok b := by
  cases x with
  | error e => simp [Except.bind]
  | ok a => simp [Except.bind]

theorem ok_do {α β : Type u} (a : α) (f : α → Except ε β) : Except.ok a >>= f = f a := rfl

theorem do_ok {α β : Type u} {x : Except ε α} {f : α → Except ε β} {b : β} :
    x >>= f = .ok b ↔ ∃ a, x = .ok a ∧ f a = .ok b :=
  bind_ok

theorem map_ok {α β : Type*} {x : Except ε α} {f : α → β} {b : β} :
    x.map f = .ok b ↔ ∃ a, x = .ok a ∧ f a = b := by
  cases x with
  | error e => simp [Except.map]
  | ok a => simp [Except.map]

theorem run_cons_ok {step : σ → ι → Except ε σ} {s t : σ} {op : ι} {ops : List ι} :
    run step s (op :: ops) = .ok t ↔
      ∃ s', step s op = .ok s' ∧ run step s' ops = .ok t := by
  rw [run_cons, bind_ok]

theorem run_append_ok {step : σ → ι → Except ε σ} {s t : σ} {first second : List ι} :
    run step s (first ++ second) = .ok t ↔
      ∃ s', run step s first = .ok s' ∧ run step s' second = .ok t := by
  induction first generalizing s with
  | nil => simp
  | cons op first ih =>
      simp only [List.cons_append, run_cons_ok, ih]
      constructor
      · rintro ⟨s₁, h₁, s₂, h₂, h₃⟩
        exact ⟨s₂, ⟨s₁, h₁, h₂⟩, h₃⟩
      · rintro ⟨s₂, ⟨s₁, h₁, h₂⟩, h₃⟩
        exact ⟨s₁, h₁, s₂, h₂, h₃⟩

/-- A loop that adds something to a total at every turn. -/
theorem foldlM_add {α : Type*} {l : List α} {f : ℤ → α → Except ε ℤ} {g : α → ℤ}
    (hadd : ∀ x ∈ l, ∀ total, f total x = .ok (total + g x)) (total : ℤ) :
    l.foldlM f total = .ok (total + (l.map g).sum) := by
  induction l generalizing total with
  | nil =>
      rw [List.map_nil, List.sum_nil, add_zero]
      rfl
  | cons x l ih =>
      rw [List.foldlM_cons, hadd x (List.mem_cons_self ..)]
      have hrest := ih (fun y hy => hadd y (List.mem_cons_of_mem _ hy)) (total + g x)
      rw [ok_do, hrest, List.map_cons, List.sum_cons, add_assoc]

/-- What every step preserves holds after every run. -/
theorem run_invariant {step : σ → ι → Except ε σ} {I : σ → Prop}
    (hstep : ∀ s op s', I s → step s op = .ok s' → I s')
    {s t : σ} {ops : List ι} (hs : I s) (hrun : run step s ops = .ok t) : I t := by
  induction ops generalizing s with
  | nil =>
      cases hrun
      exact hs
  | cons op ops ih =>
      obtain ⟨s', hop, hrest⟩ := run_cons_ok.mp hrun
      exact ih (hstep s op s' hs hop) hrest

/-- Every step of the run is taken in a state that meets the condition. -/
def Along (step : σ → ι → Except ε σ) (C : σ → ι → Prop) : σ → List ι → Prop
  | _, [] => True
  | s, op :: ops => C s op ∧ ∀ s', step s op = .ok s' → Along step C s' ops

theorem along_nil (step : σ → ι → Except ε σ) (C : σ → ι → Prop) (s : σ) : Along step C s [] :=
  trivial

theorem along_cons {step : σ → ι → Except ε σ} {C : σ → ι → Prop} {s s' : σ} {op : ι} {ops : List ι}
    (hop : step s op = .ok s') (hc : C s op) (hrest : Along step C s' ops) :
    Along step C s (op :: ops) := by
  refine ⟨hc, fun t ht => ?_⟩
  cases hop.symm.trans ht
  exact hrest

/-- A condition that can be tested can be tested along a run. -/
instance decidableAlong {step : σ → ι → Except ε σ} {C : σ → ι → Prop}
    [∀ s op, Decidable (C s op)] : (s : σ) → (ops : List ι) → Decidable (Along step C s ops)
  | _, [] => .isTrue trivial
  | s, op :: ops =>
      match hop : step s op with
      | .ok s' =>
          have : Decidable (Along step C s' ops) := decidableAlong s' ops
          decidable_of_iff (C s op ∧ Along step C s' ops)
            ⟨fun h => along_cons hop h.1 h.2, fun h => ⟨h.1, h.2 s' hop⟩⟩
      | .error _ =>
          decidable_of_iff (C s op)
            ⟨fun hc => ⟨hc, fun s' hop' => by cases hop.symm.trans hop'⟩, fun h => h.1⟩

theorem along_append {step : σ → ι → Except ε σ} {C : σ → ι → Prop} {s s' : σ}
    {first second : List ι} (hrun : run step s first = .ok s') (hfirst : Along step C s first)
    (hsecond : Along step C s' second) : Along step C s (first ++ second) := by
  induction first generalizing s with
  | nil =>
      cases hrun
      exact hsecond
  | cons op ops ih =>
      obtain ⟨s₁, hop, hrest⟩ := run_cons_ok.mp hrun
      exact along_cons hop hfirst.1 (ih hrest (hfirst.2 s₁ hop))

theorem along_and {step : σ → ι → Except ε σ} {C C' : σ → ι → Prop} {s : σ} {ops : List ι}
    (h : Along step C s ops) (h' : Along step C' s ops) :
    Along step (fun s op => C s op ∧ C' s op) s ops := by
  induction ops generalizing s with
  | nil => trivial
  | cons op ops ih =>
      exact ⟨⟨h.1, h'.1⟩, fun s' hop => ih (h.2 s' hop) (h'.2 s' hop)⟩

/-- The property holds in every state the run reaches, the first included. -/
def Throughout (step : σ → ι → Except ε σ) (P : σ → Prop) : σ → List ι → Prop
  | s, [] => P s
  | s, op :: ops => P s ∧ ∀ s', step s op = .ok s' → Throughout step P s' ops

theorem Throughout.head {step : σ → ι → Except ε σ} {P : σ → Prop} {s : σ} {ops : List ι}
    (h : Throughout step P s ops) : P s := by
  cases ops with
  | nil => exact h
  | cons op ops => exact h.1

/-- Invariant rule for runs whose steps all meet a condition. -/
theorem throughout_of_along {step : σ → ι → Except ε σ} {C : σ → ι → Prop}
    {I P : σ → Prop} (hweaken : ∀ s, I s → P s)
    (hstep : ∀ s op s', I s → C s op → step s op = .ok s' → I s')
    {s : σ} {ops : List ι} (hs : I s) (halong : Along step C s ops) :
    Throughout step P s ops := by
  induction ops generalizing s with
  | nil => exact hweaken s hs
  | cons op ops ih =>
      obtain ⟨hc, hrest⟩ := halong
      exact ⟨hweaken s hs, fun s' hop => ih (hstep s op s' hs hc hop) (hrest s' hop)⟩

theorem invariant_of_along {step : σ → ι → Except ε σ} {C : σ → ι → Prop} {I : σ → Prop}
    (hstep : ∀ s op s', I s → C s op → step s op = .ok s' → I s')
    {s t : σ} {ops : List ι} (hs : I s) (halong : Along step C s ops)
    (hrun : run step s ops = .ok t) : I t := by
  induction ops generalizing s with
  | nil =>
      cases hrun
      exact hs
  | cons op ops ih =>
      obtain ⟨s', hop, hrest⟩ := run_cons_ok.mp hrun
      exact ih (hstep s op s' hs halong.1 hop) (halong.2 s' hop) hrest

/-- Two conditions that say the same of every step from a state with the
invariant say the same of every run. -/
theorem along_iff {step : σ → ι → Except ε σ} {C C' : σ → ι → Prop} {I : σ → Prop}
    (hstep : ∀ s op s', I s → step s op = .ok s' → I s')
    (hiff : ∀ s op, I s → (C s op ↔ C' s op)) {s : σ} {ops : List ι} (hs : I s) :
    Along step C s ops ↔ Along step C' s ops := by
  induction ops generalizing s with
  | nil => exact Iff.rfl
  | cons op ops ih =>
      constructor
      · rintro ⟨hc, hrest⟩
        exact ⟨(hiff s op hs).mp hc, fun s' hop => (ih (hstep s op s' hs hop)).mp (hrest s' hop)⟩
      · rintro ⟨hc, hrest⟩
        exact ⟨(hiff s op hs).mpr hc, fun s' hop => (ih (hstep s op s' hs hop)).mpr (hrest s' hop)⟩

/-- When the property after a step says what a condition says before it, the
property throughout a run says that every step meets the condition. The
operations of the run may be restricted to allowed ones. -/
theorem throughout_iff_along {step : σ → ι → Except ε σ} {A : ι → Prop} {C : σ → ι → Prop}
    {I P : σ → Prop} (hinv : ∀ s op s', A op → I s → step s op = .ok s' → I s')
    (hiff : ∀ s op s', A op → I s → P s → step s op = .ok s' → (P s' ↔ C s op))
    (hstuck : ∀ s op e, step s op = .error e → C s op)
    {s : σ} {ops : List ι} (hops : ∀ op ∈ ops, A op) (hs : I s) (hP : P s) :
    Throughout step P s ops ↔ Along step C s ops := by
  induction ops generalizing s with
  | nil => exact ⟨fun _ => trivial, fun _ => hP⟩
  | cons op ops ih =>
      have hallowed := hops op (List.mem_cons_self ..)
      have hrest : ∀ op ∈ ops, A op := fun op hop => hops op (List.mem_cons_of_mem _ hop)
      constructor
      · rintro ⟨_, hlater⟩
        constructor
        · cases hop : step s op with
          | error e => exact hstuck s op e hop
          | ok s' =>
              apply (hiff s op s' hallowed hs hP hop).mp
              exact (hlater s' hop).head
        · intro s' hop
          have hhere := hlater s' hop
          exact (ih hrest (hinv s op s' hallowed hs hop) hhere.head).mp hhere
      · rintro ⟨hc, hlater⟩
        refine ⟨hP, fun s' hop => ?_⟩
        have hP' := (hiff s op s' hallowed hs hP hop).mpr hc
        exact (ih hrest (hinv s op s' hallowed hs hop) hP').mpr (hlater s' hop)

/-- A run of a relation between states, labelled by events. -/
inductive Steps (R : τ → κ → τ → Prop) : τ → List κ → τ → Prop where
  | nil (a : τ) : Steps R a [] a
  | cons {a b c : τ} {event : κ} {events : List κ} :
      R a event b → Steps R b events c → Steps R a (event :: events) c

theorem steps_invariant {R : τ → κ → τ → Prop} {I : τ → Prop}
    (hstep : ∀ a event b, I a → R a event b → I b)
    {a b : τ} {events : List κ} (ha : I a) (hsteps : Steps R a events b) : I b := by
  induction hsteps with
  | nil a => exact ha
  | cons hfirst _ ih => exact ih (hstep _ _ _ ha hfirst)

/-- The events of a run, as far as it gets. -/
def trace (step : σ → ι → Except ε σ) (event : σ → ι → κ) : σ → List ι → List κ
  | _, [] => []
  | s, op :: ops =>
      event s op ::
        match step s op with
        | .ok s' => trace step event s' ops
        | .error _ => []

theorem trace_cons {step : σ → ι → Except ε σ} (event : σ → ι → κ) {s s' : σ} {op : ι}
    (ops : List ι) (hop : step s op = .ok s') :
    trace step event s (op :: ops) = event s op :: trace step event s' ops := by
  simp only [trace, hop]

theorem trace_append {step : σ → ι → Except ε σ} (event : σ → ι → κ) {s s' : σ}
    {first : List ι} (second : List ι) (hrun : run step s first = .ok s') :
    trace step event s (first ++ second) =
      trace step event s first ++ trace step event s' second := by
  induction first generalizing s with
  | nil =>
      cases hrun
      rfl
  | cons op first ih =>
      obtain ⟨s₁, hop, hrest⟩ := run_cons_ok.mp hrun
      rw [List.cons_append, trace_cons event _ hop, trace_cons event _ hop, ih hrest]
      rfl

/-- Potential rule: when every event of a kind raises a measure that no step
lowers, the measure bounds how many there are in a run. -/
theorem count_trace_le {step : σ → ι → Except ε σ} {event : σ → ι → Bool} {C : σ → ι → Prop}
    {I : σ → Prop} {f : σ → ℕ}
    (hstep : ∀ s op s', I s → C s op → step s op = .ok s' →
      I s' ∧ f s + (event s op).toNat ≤ f s')
    {s t : σ} {ops : List ι} (hs : I s) (halong : Along step C s ops)
    (hrun : run step s ops = .ok t) : f s + (trace step event s ops).count true ≤ f t := by
  induction ops generalizing s with
  | nil =>
      cases hrun
      exact Nat.le_refl _
  | cons op ops ih =>
      obtain ⟨s', hop, hrest⟩ := run_cons_ok.mp hrun
      obtain ⟨hs', hfirst⟩ := hstep s op s' hs halong.1 hop
      have hlater := ih hs' (halong.2 s' hop) hrest
      rw [trace_cons event ops hop]
      cases hevent : event s op with
      | false =>
          rw [hevent, Bool.toNat_false] at hfirst
          rw [List.count_cons_of_ne Bool.false_ne_true]
          omega
      | true =>
          rw [hevent, Bool.toNat_true] at hfirst
          rw [List.count_cons_self]
          omega

/-- Forward simulation: when every step from a state with the invariant is a
step of the relation between the abstract states, every run is a run of it. -/
theorem run_simulates {step : σ → ι → Except ε σ} {event : σ → ι → κ}
    {R : τ → κ → τ → Prop} {abs : σ → τ} {I : σ → Prop}
    (hinv : ∀ s op s', I s → step s op = .ok s' → I s')
    (hsim : ∀ s op s', I s → step s op = .ok s' → R (abs s) (event s op) (abs s'))
    {s t : σ} {ops : List ι} (hs : I s) (hrun : run step s ops = .ok t) :
    Steps R (abs s) (trace step event s ops) (abs t) := by
  induction ops generalizing s with
  | nil =>
      cases hrun
      exact .nil _
  | cons op ops ih =>
      obtain ⟨s', hop, hrest⟩ := run_cons_ok.mp hrun
      simp only [trace, hop]
      exact .cons (hsim s op s' hs hop) (ih (hinv s op s' hs hop) hrest)

/-- Forward simulation for runs whose steps all meet a condition: when every
step between related states is matched by an operation of the other side, every
run is matched by a run. -/
theorem run_matches {ι' ε' : Type*} {step : σ → ι → Except ε σ} {step' : τ → ι' → Except ε' τ}
    {R : σ → τ → Prop} {M : ι → ι' → Prop} {C : σ → ι → Prop}
    (hsim : ∀ s a op s', R s a → C s op → step s op = .ok s' →
      ∃ op' a', M op op' ∧ step' a op' = .ok a' ∧ R s' a')
    {s t : σ} {a : τ} {ops : List ι} (hrelated : R s a) (halong : Along step C s ops)
    (hrun : run step s ops = .ok t) :
    ∃ ops' b, List.Forall₂ M ops ops' ∧ run step' a ops' = .ok b ∧ R t b := by
  induction ops generalizing s a with
  | nil =>
      cases hrun
      exact ⟨[], a, .nil, rfl, hrelated⟩
  | cons op ops ih =>
      obtain ⟨s', hop, hrest⟩ := run_cons_ok.mp hrun
      obtain ⟨op', a', hmatch, hop', hrelated'⟩ := hsim s a op s' hrelated halong.1 hop
      obtain ⟨ops', b, hmatches, hrun', hend⟩ := ih hrelated' (halong.2 s' hop) hrest
      exact ⟨op' :: ops', b, .cons hmatch hmatches, run_cons_ok.mpr ⟨a', hop', hrun'⟩, hend⟩

/-- When every step that meets a condition goes through, keeps the invariant and
is one of the relation between what is seen of the states, so does every run. -/
theorem run_follows {step : σ → ι → Except ε σ} {C : σ → ι → Prop} {I : σ → Prop}
    {A : σ → τ} {R : τ → ι → τ → Prop}
    (hstep : ∀ s op, I s → C s op → ∃ s', step s op = .ok s' ∧ I s' ∧ R (A s) op (A s'))
    {s : σ} {ops : List ι} (hs : I s) (halong : Along step C s ops) :
    ∃ t, run step s ops = .ok t ∧ I t ∧ Steps R (A s) ops (A t) := by
  induction ops generalizing s with
  | nil => exact ⟨s, rfl, hs, .nil _⟩
  | cons op ops ih =>
      obtain ⟨s', hop, hs', hfirst⟩ := hstep s op hs halong.1
      obtain ⟨t, hrun, ht, hlater⟩ := ih hs' (halong.2 s' hop)
      exact ⟨t, run_cons_ok.mpr ⟨s', hop, hrun⟩, ht, .cons hfirst hlater⟩

/-- Simulation with idle steps: what the abstract states see of a run is a run
of some of its operations. -/
theorem run_stutters {step : σ → ι → Except ε σ} {step' : τ → ι → Except κ τ} {abs : σ → τ}
    (hsim : ∀ s op s', step s op = .ok s' → abs s' = abs s ∨ step' (abs s) op = .ok (abs s'))
    {s t : σ} {ops : List ι} (hrun : run step s ops = .ok t) :
    ∃ ops', ops'.Sublist ops ∧ run step' (abs s) ops' = .ok (abs t) := by
  induction ops generalizing s with
  | nil =>
      cases hrun
      exact ⟨[], .slnil, rfl⟩
  | cons op ops ih =>
      obtain ⟨s', hop, hrest⟩ := run_cons_ok.mp hrun
      obtain ⟨ops', hsub, hrun'⟩ := ih hrest
      rcases hsim s op s' hop with hsame | hmoves
      · rw [hsame] at hrun'
        exact ⟨ops', hsub.cons op, hrun'⟩
      · exact ⟨op :: ops', hsub.cons_cons op, run_cons_ok.mpr ⟨abs s', hmoves, hrun'⟩⟩

/-- The greatest value of a measure in the states of a run. -/
def highest {L : Type*} [LinearOrder L] (step : σ → ι → Except ε σ) (f : σ → L) : σ → List ι → L
  | s, [] => f s
  | s, op :: ops =>
      max (f s) (match step s op with
        | .ok s' => highest step f s' ops
        | .error _ => f s)

theorem highest_cons {L : Type*} [LinearOrder L] {step : σ → ι → Except ε σ} (f : σ → L)
    {s s' : σ} {op : ι} (ops : List ι) (hop : step s op = .ok s') :
    highest step f s (op :: ops) = max (f s) (highest step f s' ops) := by
  simp only [highest, hop]

theorem le_highest {L : Type*} [LinearOrder L] (step : σ → ι → Except ε σ) (f : σ → L) (s : σ)
    (ops : List ι) : f s ≤ highest step f s ops := by
  cases ops with
  | nil => exact le_refl _
  | cons op ops => exact le_max_left _ _

/-- Invariant rule for a state and the greatest value so far. -/
theorem highest_invariant {L : Type*} [LinearOrder L] {step : σ → ι → Except ε σ} {f : σ → L}
    {I : σ → L → Prop} (hstep : ∀ s k op s', I s k → step s op = .ok s' → I s' (max k (f s')))
    {s t : σ} {k : L} {ops : List ι} (hs : I s k) (hk : f s ≤ k)
    (hrun : run step s ops = .ok t) : I t (max k (highest step f s ops)) := by
  induction ops generalizing s k with
  | nil =>
      cases hrun
      rw [highest, max_eq_left hk]
      exact hs
  | cons op ops ih =>
      obtain ⟨s', hop, hrest⟩ := run_cons_ok.mp hrun
      have hlater := ih (hstep s k op s' hs hop) (le_max_right _ _) hrest
      rw [max_assoc, max_eq_right (le_highest step f s' ops)] at hlater
      rw [highest_cons f ops hop, ← max_assoc, max_eq_left hk]
      exact hlater

end CloRedis.Library
