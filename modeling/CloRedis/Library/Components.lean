import CloRedis.Library.Run

/-!
Systems made of components. Every operation is routed to one component, acts
on it as the component alone prescribes, and leaves the others as they are.
Then a run, seen from one component, is the run of the operations routed to
it, and operations on different components commute.
-/

namespace CloRedis.Library

variable {σ ι κ τ ε : Type*}

/-- `own k` is what an operation does to component `k` when it is routed
there; `I` is what the steps rely on and preserve. -/
structure Components (step : σ → ι → Except ε σ) (part : σ → κ → τ) (route : ι → κ)
    (own : κ → τ → ι → Except ε τ) (I : σ → Prop) : Prop where
  preserved : ∀ s op s', I s → step s op = .ok s' → I s'
  acts : ∀ s op s', I s → step s op = .ok s' →
    own (route op) (part s (route op)) op = .ok (part s' (route op))
  frame : ∀ s op s' k, I s → step s op = .ok s' → k ≠ route op → part s' k = part s k
  enabled : ∀ s op c, I s → own (route op) (part s (route op)) op = .ok c →
    ∃ s', step s op = .ok s'

namespace Components

variable {step : σ → ι → Except ε σ} {part : σ → κ → τ} {route : ι → κ}
  {own : κ → τ → ι → Except ε τ} {I : σ → Prop}

/-- Operations all routed to one component run as the component does. -/
theorem run_of_part (h : Components step part route own I) {s : σ} {ops : List ι} {k : κ} {c : τ}
    (hs : I s) (hroute : ∀ op ∈ ops, route op = k)
    (hrun : run (own k) (part s k) ops = .ok c) :
    ∃ t, run step s ops = .ok t ∧ part t k = c := by
  induction ops generalizing s with
  | nil =>
      cases hrun
      exact ⟨s, rfl, rfl⟩
  | cons op ops ih =>
      obtain ⟨c', hop, hrest⟩ := run_cons_ok.mp hrun
      have hk : route op = k := hroute op (List.mem_cons_self ..)
      subst hk
      obtain ⟨s', hstep⟩ := h.enabled s op c' hs hop
      have hacts := h.acts s op s' hs hstep
      cases hop.symm.trans hacts
      obtain ⟨t, ht, hpart⟩ := ih (h.preserved s op s' hs hstep)
        (fun other hmem => hroute other (List.mem_cons_of_mem _ hmem)) hrest
      exact ⟨t, run_cons_ok.mpr ⟨s', hstep, ht⟩, hpart⟩

variable [DecidableEq κ]

/-- A run, seen from one component. -/
theorem run_part (h : Components step part route own I) {s t : σ} {ops : List ι} (hs : I s)
    (hrun : run step s ops = .ok t) (k : κ) :
    run (own k) (part s k) (ops.filter fun op => route op = k) = .ok (part t k) := by
  induction ops generalizing s with
  | nil =>
      cases hrun
      rfl
  | cons op ops ih =>
      obtain ⟨s', hop, hrest⟩ := run_cons_ok.mp hrun
      have htail := ih (h.preserved s op s' hs hop) hrest
      by_cases hroute : route op = k
      · rw [List.filter_cons_of_pos (by simpa using hroute), run_cons_ok]
        subst hroute
        exact ⟨part s' (route op), h.acts s op s' hs hop, htail⟩
      · rw [List.filter_cons_of_neg (by simpa using hroute)]
        rwa [h.frame s op s' k hs hop (Ne.symm hroute)] at htail

/-- Projection: leaving out the operations routed elsewhere changes nothing
for a component. -/
theorem run_filter (h : Components step part route own I) {s t : σ} {ops : List ι} (hs : I s)
    (hrun : run step s ops = .ok t) (k : κ) :
    ∃ t', run step s (ops.filter fun op => route op = k) = .ok t' ∧ part t' k = part t k := by
  have hpart := h.run_part hs hrun k
  exact h.run_of_part hs (fun op hop => by simpa using (List.mem_filter.mp hop).2) hpart

/-- Operations on different components commute. -/
theorem commute (h : Components step part route own I) {s t : σ} {first second : ι} (hs : I s)
    (hne : route first ≠ route second) (hrun : run step s [first, second] = .ok t) :
    ∃ t', run step s [second, first] = .ok t' ∧ ∀ k, part t' k = part t k := by
  obtain ⟨s₁, h₁, hrest⟩ := run_cons_ok.mp hrun
  obtain ⟨s₂, h₂, hnil⟩ := run_cons_ok.mp hrest
  cases hnil
  have hs₁ := h.preserved s first s₁ hs h₁
  -- each of them finds its component as it was
  have hsecond := h.acts s₁ second _ hs₁ h₂
  rw [h.frame s first s₁ _ hs h₁ (Ne.symm hne)] at hsecond
  obtain ⟨u₁, hu₁⟩ := h.enabled s second _ hs hsecond
  have hu := h.preserved s second u₁ hs hu₁
  have hfirst := h.acts s first s₁ hs h₁
  rw [← h.frame s second u₁ _ hs hu₁ hne] at hfirst
  obtain ⟨u₂, hu₂⟩ := h.enabled u₁ first _ hu hfirst
  refine ⟨u₂, run_cons_ok.mpr ⟨u₁, hu₁, run_cons_ok.mpr ⟨u₂, hu₂, rfl⟩⟩, ?_⟩
  intro k
  by_cases hk₁ : k = route first
  · subst hk₁
    have hlast := h.acts u₁ first u₂ hu hu₂
    rw [h.frame s₁ second _ _ hs₁ h₂ hne]
    exact Except.ok.inj (hlast.symm.trans hfirst)
  · rw [h.frame u₁ first u₂ k hu hu₂ hk₁]
    by_cases hk₂ : k = route second
    · subst hk₂
      have honly := h.acts s second u₁ hs hu₁
      exact Except.ok.inj (honly.symm.trans hsecond)
    · rw [h.frame s second u₁ k hs hu₁ hk₂, h.frame s₁ second _ k hs₁ h₂ hk₂,
        h.frame s first s₁ k hs h₁ hk₁]

end Components

end CloRedis.Library
