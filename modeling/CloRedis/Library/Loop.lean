import Mathlib.Tactic

/-!
While loops. A loop body either goes on with a new state or leaves the loop
with a result. `Loop` is the meaning of the loop, without any bound on the
number of iterations; `runLoop` computes it with fuel. A measure that every
iteration decreases makes the two agree, so the loop terminates.
-/

namespace CloRedis.Library

variable {σ τ β γ ε : Type*}

/-- The loop started in a state leaves with a result. -/
inductive Loop (body : σ → σ ⊕ β) : σ → β → Prop where
  | stop {s : σ} {b : β} : body s = .inr b → Loop body s b
  | next {s s' : σ} {b : β} : body s = .inl s' → Loop body s' b → Loop body s b

/-- At most `fuel` iterations; `out` is the result when the fuel is used up. -/
def runLoop (body : σ → σ ⊕ β) (out : σ → β) : Nat → σ → β
  | 0, s => out s
  | fuel + 1, s =>
      match body s with
      | .inl s' => runLoop body out fuel s'
      | .inr b => b

theorem Loop.unique {body : σ → σ ⊕ β} {s : σ} {a b : β}
    (ha : Loop body s a) (hb : Loop body s b) : a = b := by
  induction ha with
  | stop hstop =>
      cases hb with
      | stop hstop' => exact Sum.inr.inj (hstop.symm.trans hstop')
      | next hnext _ => cases hstop.symm.trans hnext
  | next hnext _ ih =>
      cases hb with
      | stop hstop => cases hnext.symm.trans hstop
      | next hnext' hrest =>
          cases Sum.inl.inj (hnext.symm.trans hnext')
          exact ih hrest

/-- An invariant of the body holds until the loop is left. -/
theorem Loop.invariant {body : σ → σ ⊕ β} {I : σ → Prop} {Q : β → Prop}
    (hnext : ∀ s s', I s → body s = .inl s' → I s')
    (hstop : ∀ s b, I s → body s = .inr b → Q b)
    {s : σ} {b : β} (hloop : Loop body s b) (hs : I s) : Q b := by
  induction hloop with
  | stop hbody => exact hstop _ _ hs hbody
  | next hbody _ ih => exact ih (hnext _ _ hs hbody)

/-- With a decreasing measure and more fuel than its value, the computed
result is the one the loop leaves with. -/
theorem loop_runLoop {body : σ → σ ⊕ β} (out : σ → β) (measure : σ → Nat)
    (hdecr : ∀ s s', body s = .inl s' → measure s' < measure s)
    {fuel : Nat} {s : σ} (hfuel : measure s < fuel) :
    Loop body s (runLoop body out fuel s) := by
  induction fuel generalizing s with
  | zero => omega
  | succ fuel ih =>
      cases hbody : body s with
      | inr b =>
          simp only [runLoop, hbody]
          exact .stop hbody
      | inl s' =>
          simp only [runLoop, hbody]
          have hless := hdecr s s' hbody
          exact .next hbody (ih (by omega))

/-- The same where the measure decreases as long as an invariant holds. -/
theorem loop_runLoop_of_invariant {body : σ → σ ⊕ β} (out : σ → β) (measure : σ → Nat)
    {I : σ → Prop} (hnext : ∀ s s', I s → body s = .inl s' → I s' ∧ measure s' < measure s)
    {fuel : Nat} {s : σ} (hfuel : measure s < fuel) (hs : I s) :
    Loop body s (runLoop body out fuel s) := by
  induction fuel generalizing s with
  | zero => omega
  | succ fuel ih =>
      cases hbody : body s with
      | inr b =>
          simp only [runLoop, hbody]
          exact .stop hbody
      | inl s' =>
          simp only [runLoop, hbody]
          obtain ⟨hs', hless⟩ := hnext s s' hs hbody
          exact .next hbody (ih (by omega) hs')

/-- Two loops whose bodies go on and leave together. The second computes with
the fuel that is enough for the first, and the results are related. -/
theorem runLoop_simulates {body : σ → σ ⊕ β} {body' : τ → τ ⊕ γ} {R : σ → τ → Prop}
    {Q : β → γ → Prop} (out : σ → β) (out' : τ → γ) (measure : σ → Nat)
    (hdecr : ∀ s s', body s = .inl s' → measure s' < measure s)
    (hnext : ∀ s s' t, R s t → body s = .inl s' → ∃ t', body' t = .inl t' ∧ R s' t')
    (hstop : ∀ s b t, R s t → body s = .inr b → ∃ c, body' t = .inr c ∧ Q b c)
    {fuel : Nat} {s : σ} {t : τ} (hfuel : measure s < fuel) (h : R s t) :
    Loop body' t (runLoop body' out' fuel t) ∧
      Q (runLoop body out fuel s) (runLoop body' out' fuel t) := by
  induction fuel generalizing s t with
  | zero => omega
  | succ fuel ih =>
      cases hbody : body s with
      | inr b =>
          obtain ⟨c, hbody', hQ⟩ := hstop s b t h hbody
          simp only [runLoop, hbody, hbody']
          exact ⟨.stop hbody', hQ⟩
      | inl s' =>
          obtain ⟨t', hbody', hR⟩ := hnext s s' t h hbody
          have hless := hdecr s s' hbody
          obtain ⟨hloop, hQ⟩ := ih (by omega) hR
          simp only [runLoop, hbody, hbody']
          exact ⟨.next hbody' hloop, hQ⟩

/-- A turn that fails leaves the loop with its error. -/
def attempt (body : σ → Except ε (σ ⊕ β)) (s : σ) : σ ⊕ Except ε β :=
  match body s with
  | .error e => .inr (.error e)
  | .ok (.inl s') => .inl s'
  | .ok (.inr b) => .inr (.ok b)

theorem attempt_next {body : σ → Except ε (σ ⊕ β)} {s s' : σ} (h : body s = .ok (.inl s')) :
    attempt body s = .inl s' := by
  simp only [attempt, h]

theorem attempt_stop {body : σ → Except ε (σ ⊕ β)} {s : σ} {b : β} (h : body s = .ok (.inr b)) :
    attempt body s = .inr (.ok b) := by
  simp only [attempt, h]

theorem attempt_error {body : σ → Except ε (σ ⊕ β)} {s : σ} {e : ε} (h : body s = .error e) :
    attempt body s = .inr (.error e) := by
  simp only [attempt, h]

theorem attempt_inl {body : σ → Except ε (σ ⊕ β)} {s s' : σ} (h : attempt body s = .inl s') :
    body s = .ok (.inl s') := by
  unfold attempt at h
  split at h
  · cases h
  · rename_i hbody
    cases h
    exact hbody
  · cases h

end CloRedis.Library
