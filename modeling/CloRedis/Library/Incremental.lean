import Mathlib.Tactic

/-!
Readers of a stream that arrives in pieces. A reader looks at the part of the
stream it has not read yet and waits for more, takes some of it, or fails. When
what comes behind never changes what a reader does with what is there, the
items it brings out do not depend on the pieces.
-/

namespace CloRedis.Library

variable {σ β ρ ε : Type*}

/-- What a reader does next. -/
inductive Turn (σ ρ ε : Type*) where
  | wait
  | take (n : Nat) (s : σ) (out : Option ρ)
  | fail (e : ε)

/-- A reader that makes progress, takes no more than there is, and does the
same when there is more. -/
structure Steady (turn : σ → List β → Turn σ ρ ε) : Prop where
  progress : ∀ {s l n s' out}, turn s l = .take n s' out → 0 < n ∧ n ≤ l.length
  extend : ∀ {s l} (more : List β), turn s l ≠ .wait → turn s (l ++ more) = turn s l

/-- The reader goes from a state and what is unread to others, and brings out
the items. -/
inductive Reads (turn : σ → List β → Turn σ ρ ε) : σ → List β → List ρ → σ → List β → Prop where
  | nil (s : σ) (l : List β) : Reads turn s l [] s l
  | cons {s s' t : σ} {l rest : List β} {n : Nat} {out : Option ρ} {outs : List ρ} :
      turn s l = .take n s' out → Reads turn s' (l.drop n) outs t rest →
      Reads turn s l (out.toList ++ outs) t rest

/-- The reader takes nothing more. -/
def Stuck (turn : σ → List β → Turn σ ρ ε) (s : σ) (l : List β) : Prop :=
  ∀ n s' out, turn s l ≠ .take n s' out

/-- The reader reads on until it is stuck. -/
def drain (turn : σ → List β → Turn σ ρ ε) : Nat → σ → List β → List ρ × σ × List β
  | 0, s, l => ([], s, l)
  | fuel + 1, s, l =>
      match turn s l with
      | .take n s' out =>
          let (outs, t, rest) := drain turn fuel s' (l.drop n)
          (out.toList ++ outs, t, rest)
      | _ => ([], s, l)

variable {turn : σ → List β → Turn σ ρ ε} {s t u : σ} {l rest rest' : List β} {outs outs' : List ρ}

theorem Stuck.of_wait (h : turn s l = .wait) : Stuck turn s l := by
  intro n s' out htake
  cases h.symm.trans htake

theorem Stuck.of_fail {e : ε} (h : turn s l = .fail e) : Stuck turn s l := by
  intro n s' out htake
  cases h.symm.trans htake

namespace Reads

theorem single {n : Nat} {s' : σ} {out : Option ρ} (h : turn s l = .take n s' out) :
    Reads turn s l out.toList s' (l.drop n) := by
  have hone := Reads.cons h (.nil s' (l.drop n))
  rwa [List.append_nil] at hone

theorem trans (h : Reads turn s l outs t rest) (h' : Reads turn t rest outs' u rest') :
    Reads turn s l (outs ++ outs') u rest' := by
  induction h with
  | nil => exact h'
  | cons hturn _ ih =>
      rw [List.append_assoc]
      exact .cons hturn (ih h')

theorem append (hsteady : Steady turn) (more : List β) (h : Reads turn s l outs t rest) :
    Reads turn s (l ++ more) outs t (rest ++ more) := by
  induction h with
  | nil => exact .nil _ _
  | @cons s s' t l rest n out outs hturn hrest ih =>
      have hextend := hsteady.extend more (s := s) (l := l) (by rw [hturn]; nofun)
      have hle := (hsteady.progress hturn).2
      rw [← List.drop_append_of_le_length hle] at ih
      exact .cons (hextend.trans hturn) ih

/-- What was read of a piece, and then of the next. -/
theorem piece (hsteady : Steady turn) {more : List β} (h : Reads turn s l outs t rest)
    (h' : Reads turn t (rest ++ more) outs' u rest') :
    Reads turn s (l ++ more) (outs ++ outs') u rest' :=
  (h.append hsteady more).trans h'

/-- What is unread is what is left of the stream. -/
theorem suffix (h : Reads turn s l outs t rest) : rest <:+ l := by
  induction h with
  | nil => exact List.suffix_refl _
  | cons _ _ ih => exact ih.trans (List.drop_suffix _ _)

/-- A reading that is not at its end goes on as any reading to the end does. -/
theorem before (h : Reads turn s l outs t rest) (hend : Reads turn s l outs' u rest')
    (hstuck : Stuck turn u rest') :
    ∃ later, outs' = outs ++ later ∧ Reads turn t rest later u rest' := by
  induction h generalizing outs' with
  | nil => exact ⟨outs', rfl, hend⟩
  | cons hturn _ ih =>
      cases hend with
      | nil => exact absurd hturn (hstuck _ _ _)
      | cons hturn' hrest' =>
          cases hturn.symm.trans hturn'
          obtain ⟨later, rfl, hlater⟩ := ih hrest'
          exact ⟨later, (List.append_assoc ..).symm, hlater⟩

theorem stuck_nil (hstuck : Stuck turn s l) (h : Reads turn s l outs t rest) :
    outs = [] ∧ t = s ∧ rest = l := by
  cases h with
  | nil => exact ⟨rfl, rfl, rfl⟩
  | cons hturn _ => exact absurd hturn (hstuck _ _ _)

/-- All readings that go to the end are one. -/
theorem unique (h : Reads turn s l outs t rest) (hstuck : Stuck turn t rest)
    (h' : Reads turn s l outs' u rest') (hstuck' : Stuck turn u rest') :
    outs = outs' ∧ t = u ∧ rest = rest' := by
  obtain ⟨later, rfl, hlater⟩ := h.before h' hstuck'
  obtain ⟨rfl, rfl, rfl⟩ := hlater.stuck_nil hstuck
  exact ⟨(List.append_nil _).symm, rfl, rfl⟩

/-- Invariant rule: what every turn keeps of the stream read so far and the
items brought out. -/
theorem invariant {I : List β → List ρ → σ → Prop}
    (hturn : ∀ {past items s l n s' out}, I past items s → turn s l = .take n s' out →
      I (past ++ l.take n) (items ++ out.toList) s')
    {past : List β} {items : List ρ} (hs : I past items s) (h : Reads turn s l outs t rest) :
    ∃ mid, l = mid ++ rest ∧ I (past ++ mid) (items ++ outs) t := by
  induction h generalizing past items with
  | nil => exact ⟨[], rfl, by rwa [List.append_nil, List.append_nil]⟩
  | @cons s s' t l rest n out outs htake _ ih =>
      obtain ⟨mid, hmid, hI⟩ := ih (hturn hs htake)
      refine ⟨l.take n ++ mid, ?_, ?_⟩
      · rw [List.append_assoc, ← hmid, List.take_append_drop]
      · rw [← List.append_assoc, ← List.append_assoc]
        exact hI

end Reads

theorem drain_reads (turn : σ → List β → Turn σ ρ ε) (fuel : Nat) (s : σ) (l : List β) :
    Reads turn s l (drain turn fuel s l).1 (drain turn fuel s l).2.1 (drain turn fuel s l).2.2 := by
  induction fuel generalizing s l with
  | zero => exact .nil s l
  | succ fuel ih =>
      cases hturn : turn s l with
      | wait =>
          simp only [drain, hturn]
          exact .nil s l
      | fail e =>
          simp only [drain, hturn]
          exact .nil s l
      | take n s' out =>
          simp only [drain, hturn]
          exact .cons hturn (ih s' (l.drop n))

/-- With one turn for each element the end is reached. -/
theorem drain_stuck (hsteady : Steady turn) {fuel : Nat} (hfuel : l.length < fuel) :
    Stuck turn (drain turn fuel s l).2.1 (drain turn fuel s l).2.2 := by
  induction fuel generalizing s l with
  | zero => omega
  | succ fuel ih =>
      cases hturn : turn s l with
      | wait =>
          simp only [drain, hturn]
          exact .of_wait hturn
      | fail e =>
          simp only [drain, hturn]
          exact .of_fail hturn
      | take n s' out =>
          simp only [drain, hturn]
          have hprogress := hsteady.progress hturn
          apply ih
          rw [List.length_drop]
          omega

end CloRedis.Library
