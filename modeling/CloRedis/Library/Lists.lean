import Mathlib.Tactic

/-!
Lists from which elements leave one at a time: taking out the first element
with a property, and cutting off the tail of a list sorted by a key.
-/

namespace CloRedis.Library

variable {α : Type*}

/-- The first element with the property, and the list without it. -/
def takeFirst (p : α → Bool) : List α → Option (α × List α)
  | [] => none
  | a :: l =>
      if p a then some (a, l)
      else (takeFirst p l).map fun r => (r.1, a :: r.2)

theorem takeFirst_split {p : α → Bool} {l rest : List α} {a : α}
    (h : takeFirst p l = some (a, rest)) :
    p a = true ∧ ∃ before after, l = before ++ a :: after ∧ rest = before ++ after := by
  induction l generalizing rest with
  | nil => simp [takeFirst] at h
  | cons b l ih =>
      unfold takeFirst at h
      split at h
      · rename_i hb
        cases h
        exact ⟨hb, [], _, rfl, rfl⟩
      · obtain ⟨⟨c, tail⟩, hc, heq⟩ := Option.map_eq_some_iff.mp h
        cases heq
        obtain ⟨hp, before, after, rfl, rfl⟩ := ih hc
        exact ⟨hp, b :: before, after, rfl, rfl⟩

theorem takeFirst_perm {p : α → Bool} {l rest : List α} {a : α}
    (h : takeFirst p l = some (a, rest)) : l.Perm (a :: rest) := by
  obtain ⟨_, before, after, rfl, rfl⟩ := takeFirst_split h
  exact List.perm_middle

/-- An element with the property can be taken out. -/
theorem takeFirst_exists {p : α → Bool} {l : List α} {a : α} (ha : a ∈ l) (hp : p a = true) :
    ∃ b rest, takeFirst p l = some (b, rest) := by
  induction l with
  | nil => cases ha
  | cons c l ih =>
      by_cases hc : p c = true
      · exact ⟨c, l, by simp [takeFirst, hc]⟩
      · have htail : a ∈ l := by
          rcases List.mem_cons.mp ha with rfl | h
          · exact absurd hp hc
          · exact h
        obtain ⟨b, rest, hb⟩ := ih htail
        exact ⟨b, c :: rest, by simp [takeFirst, hc, hb]⟩

/-- In a list whose keys never increase from front to back, a last element
that is not below a bound keeps every element from being below it. -/
theorem not_lt_of_getLast? {β : Type*} [LinearOrder β] {key : α → β} {l : List α}
    (hsorted : l.Pairwise fun a b => key b ≤ key a) {bound : β} {last : α}
    (hlast : l.getLast? = some last) (hbound : bound ≤ key last) :
    ∀ a ∈ l, bound ≤ key a := by
  obtain ⟨front, rfl⟩ := List.getLast?_eq_some_iff.mp hlast
  intro a ha
  rcases List.mem_append.mp ha with hfront | hend
  · have hle := (List.pairwise_append.mp hsorted).2.2 a hfront last (by simp)
    exact hbound.trans hle
  · simp only [List.mem_singleton] at hend
    subst hend
    exact hbound

/-- An element may stand in front of a sorted list if it may stand in front of
the first. -/
theorem pairwise_cons_iff_head {β : Type*} [LinearOrder β] {key : α → β} {l : List α}
    (hsorted : l.Pairwise fun a b => key b ≤ key a) (a : α) :
    ((a :: l).Pairwise fun a b => key b ≤ key a) ↔ ∀ first ∈ l.head?, key first ≤ key a := by
  rw [List.pairwise_cons]
  cases l with
  | nil => simp
  | cons first l =>
      constructor
      · rintro ⟨hall, _⟩ other hother
        cases hother
        exact hall first (List.mem_cons_self ..)
      · intro hfirst
        refine ⟨fun other hother => ?_, hsorted⟩
        have hle := hfirst first rfl
        rcases List.mem_cons.mp hother with rfl | hmem
        · exact hle
        · exact ((List.pairwise_cons.mp hsorted).1 other hmem).trans hle

/-- Replacing an element by one with the same image. -/
theorem map_set_same {β : Type*} {f : α → β} {l : List α} {i : Nat} {a b : α}
    (hb : l[i]? = some b) (hf : f a = f b) : (l.set i a).map f = l.map f := by
  induction l generalizing i with
  | nil => rfl
  | cons c l ih =>
      cases i with
      | zero =>
          cases hb
          rw [List.set_cons_zero, List.map_cons, List.map_cons, hf]
      | succ i =>
          rw [List.set_cons_succ, List.map_cons, List.map_cons, ih hb]

end CloRedis.Library
