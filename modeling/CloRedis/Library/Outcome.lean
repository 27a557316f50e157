import CloRedis.Library.Run

/-!
Rules of pre- and postconditions for computations that may fail: what is known
of the result, and what is known of the error.
-/

namespace CloRedis.Library

universe u v

variable {ε : Type v} {α β : Type u} {σ ι : Type*}

/-- The result has one property, or the error has another. -/
def Ensures {α : Type*} (P : α → Prop) (E : ε → Prop) : Except ε α → Prop
  | .ok a => P a
  | .error e => E e

namespace Ensures

variable {E : ε → Prop}

theorem of_ok {α : Type*} {P : α → Prop} {x : Except ε α} {a : α} (hx : x = .ok a) (ha : P a) :
    Ensures P E x := by
  subst hx
  exact ha

theorem mono {α : Type*} {P Q : α → Prop} {x : Except ε α} (hx : Ensures P E x)
    (hPQ : ∀ a, P a → Q a) {E' : ε → Prop} (hE : ∀ e, E e → E' e) : Ensures Q E' x := by
  cases x with
  | error e => exact hE e hx
  | ok a => exact hPQ a hx

theorem ok {α : Type*} {P : α → Prop} {x : Except ε α} {a : α} (h : Ensures P E x)
    (hx : x = .ok a) : P a := by
  subst hx
  exact h

theorem error {α : Type*} {P : α → Prop} {x : Except ε α} {e : ε} (h : Ensures P E x)
    (hx : x = .error e) : E e := by
  subst hx
  exact h

theorem succeeds {α : Type*} {P : α → Prop} {x : Except ε α}
    (h : Ensures P (fun _ => False) x) : ∃ a, x = .ok a ∧ P a := by
  cases x with
  | error e => exact h.elim
  | ok a => exact ⟨a, rfl, h⟩

theorem map {α β : Type*} {P : α → Prop} {Q : β → Prop} {x : Except ε α} {f : α → β}
    (hx : Ensures P E x) (hf : ∀ a, P a → Q (f a)) : Ensures Q E (x.map f) := by
  cases x with
  | error e => exact hx
  | ok a => exact hf a hx

theorem bind {P : α → Prop} {Q : β → Prop} {x : Except ε α} {f : α → Except ε β}
    (hx : Ensures P E x) (hf : ∀ a, P a → Ensures Q E (f a)) : Ensures Q E (x >>= f) := by
  cases x with
  | error e => exact hx
  | ok a => exact hf a hx

/-- Invariant rule for a loop over a list. -/
theorem foldlM {σ : Type u} {I : σ → Prop} {l : List ι} {f : σ → ι → Except ε σ} {s : σ}
    (hstep : ∀ s a, a ∈ l → I s → Ensures I E (f s a)) (hs : I s) :
    Ensures I E (l.foldlM f s) := by
  induction l generalizing s with
  | nil => exact hs
  | cons a l ih =>
      rw [List.foldlM_cons]
      apply bind (hstep s a (List.mem_cons_self ..) hs)
      intro s' hs'
      exact ih (fun s b hb => hstep s b (List.mem_cons_of_mem _ hb)) hs'

/-- Invariant rule for a run whose steps all meet a condition. -/
theorem run {step : σ → ι → Except ε σ} {C : σ → ι → Prop} {I : σ → Prop}
    (hstep : ∀ s op, I s → C s op → Ensures I E (step s op)) {s : σ} {ops : List ι} (hs : I s)
    (halong : Along step C s ops) : Ensures I E (run step s ops) := by
  induction ops generalizing s with
  | nil => exact hs
  | cons op ops ih =>
      have hop := hstep s op hs halong.1
      rw [run_cons]
      cases hresult : step s op with
      | error e => exact hop.error hresult
      | ok s' => exact ih (hop.ok hresult) (halong.2 s' hresult)

end Ensures

/-- A loop that goes through, by an invariant about the elements done. -/
theorem foldlM_done {I : List ι → σ → Prop} {l : List ι} {f : σ → ι → Except ε σ} {s : σ}
    (hstep : ∀ done a rest s, l = done ++ a :: rest → I done s →
      ∃ s', f s a = .ok s' ∧ I (done ++ [a]) s')
    (hs : I [] s) : ∃ s', l.foldlM f s = .ok s' ∧ I l s' := by
  suffices h : ∀ rest done s, l = done ++ rest → I done s →
      ∃ s', rest.foldlM f s = .ok s' ∧ I l s' from h l [] s rfl hs
  intro rest
  induction rest with
  | nil =>
      intro done s hl hdone
      rw [List.append_nil] at hl
      exact ⟨s, rfl, hl ▸ hdone⟩
  | cons a rest ih =>
      intro done s hl hdone
      obtain ⟨s', hf, hnext⟩ := hstep done a rest s hl hdone
      obtain ⟨t, hrest, ht⟩ := ih (done ++ [a]) s' (by simp [hl]) hnext
      refine ⟨t, ?_, ht⟩
      rw [List.foldlM_cons, hf]
      exact hrest

end CloRedis.Library
