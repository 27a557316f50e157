import Mathlib.Tactic

/-!
Doubly linked lists over nodes of any type. The pointers are functions that
may lead nowhere, and a list is held by them when following one kind from the
front visits its nodes in order and following the other from the back visits
them in reverse. The rules say how linking a node in and unlinking one at an
end act on the list held.
-/

namespace CloRedis.Library

open Function

variable {ι : Type*}

/-- Following `f` from the first node visits the list and leads nowhere then. -/
def Follows (f : ι → Option ι) : List ι → Prop
  | [] => True
  | a :: l => f a = l.head? ∧ Follows f l

namespace Follows

variable {f g : ι → Option ι} {l : List ι} {a b c : ι}

/-- Only the pointers of the nodes in the list matter. -/
theorem congr (h : Follows f l) (hfg : ∀ a ∈ l, g a = f a) : Follows g l := by
  induction l with
  | nil => trivial
  | cons a l ih =>
      obtain ⟨hhead, htail⟩ := List.forall_mem_cons.mp hfg
      exact ⟨hhead.trans h.1, ih h.2 htail⟩

/-- A pointer of a node in the list leads into the list. -/
theorem mem (h : Follows f l) (ha : a ∈ l) (hb : f a = some b) : b ∈ l := by
  induction l with
  | nil => cases ha
  | cons c l ih =>
      rcases List.mem_cons.mp ha with rfl | htail
      · have hhead := h.1
        rw [hb] at hhead
        exact List.mem_cons_of_mem _ (List.mem_of_head? hhead.symm)
      · exact List.mem_cons_of_mem _ (ih h.2 htail)

variable [DecidableEq ι]

/-- The pointer of a node that is not in the list does not matter. -/
theorem update (h : Follows f l) (ha : a ∉ l) (x : Option ι) :
    Follows (Function.update f a x) l := by
  induction l with
  | nil => trivial
  | cons d l ih =>
      obtain ⟨hne, htail⟩ := not_or.mp (mt List.mem_cons.mpr ha)
      refine ⟨?_, ih h.2 htail⟩
      rw [update_of_ne (Ne.symm hne)]
      exact h.1

/-- Linking a node behind the last. -/
theorem concat (h : Follows f l) (hlast : l.getLast? = some c) (hnodup : l.Nodup)
    (hnew : b ∉ l) (hb : f b = none) : Follows (Function.update f c (some b)) (l ++ [b]) := by
  induction l with
  | nil => simp at hlast
  | cons a l ih =>
      obtain ⟨ha, hnodup⟩ := List.nodup_cons.mp hnodup
      cases l with
      | nil =>
          obtain rfl : a = c := by simpa using hlast
          refine ⟨update_self .., ?_, trivial⟩
          rw [update_of_ne (List.ne_of_not_mem_cons hnew), hb]
          rfl
      | cons d l =>
          rw [List.getLast?_cons_cons] at hlast
          have hne : a ≠ c := fun heq => ha (heq ▸ List.mem_of_getLast? hlast)
          refine ⟨?_, ih h.2 hlast hnodup (List.not_mem_of_not_mem_cons hnew)⟩
          rw [update_of_ne hne]
          exact h.1

/-- Unlinking the last node. -/
theorem drop_concat (h : Follows f (l ++ [b])) (hlast : l.getLast? = some c)
    (hnodup : l.Nodup) : Follows (Function.update f c none) l := by
  induction l with
  | nil => trivial
  | cons a l ih =>
      obtain ⟨ha, hnodup⟩ := List.nodup_cons.mp hnodup
      cases l with
      | nil =>
          cases hlast
          exact ⟨update_self .., trivial⟩
      | cons d l =>
          rw [List.getLast?_cons_cons] at hlast
          have hne : a ≠ c := fun heq => ha (heq ▸ List.mem_of_getLast? hlast)
          refine ⟨?_, ih h.2 hlast hnodup⟩
          rw [update_of_ne hne]
          exact h.1

end Follows

/-- `f` holds the list from the front, `g` from the back. -/
structure Doubly (f g : ι → Option ι) (l : List ι) : Prop where
  forth : Follows f l
  back : Follows g l.reverse
  nodup : l.Nodup

namespace Doubly

variable {f g f' g' : ι → Option ι} {l : List ι} {a b c : ι}

theorem nil (f g : ι → Option ι) : Doubly f g [] :=
  ⟨trivial, trivial, List.nodup_nil⟩

theorem single (hf : f b = none) (hg : g b = none) : Doubly f g [b] :=
  ⟨⟨hf, trivial⟩, ⟨hg, trivial⟩, List.nodup_singleton b⟩

theorem symm (h : Doubly f g l) : Doubly g f l.reverse := by
  refine ⟨h.back, ?_, List.nodup_reverse.mpr h.nodup⟩
  rw [List.reverse_reverse]
  exact h.forth

theorem congr (h : Doubly f g l) (hf : ∀ a ∈ l, f' a = f a) (hg : ∀ a ∈ l, g' a = g a) :
    Doubly f' g' l :=
  ⟨h.forth.congr hf, h.back.congr fun a ha => hg a (List.mem_reverse.mp ha), h.nodup⟩

variable [DecidableEq ι]

theorem update (h : Doubly f g l) (ha : a ∉ l) (x y : Option ι) :
    Doubly (Function.update f a x) (Function.update g a y) l :=
  ⟨h.forth.update ha x, h.back.update (by rwa [List.mem_reverse]) y, h.nodup⟩

/-- Linking a new node in front of the first. -/
theorem push (h : Doubly f g l) (hfirst : l.head? = some c) (hb : b ∉ l) (hf : f b = some c)
    (hg : g b = none) : Doubly f (Function.update g c (some b)) (b :: l) where
  forth := ⟨hf.trans hfirst.symm, h.forth⟩
  back := by
    rw [List.reverse_cons]
    have hlast : l.reverse.getLast? = some c := by rw [List.getLast?_reverse, hfirst]
    have hnew : b ∉ l.reverse := by rwa [List.mem_reverse]
    exact h.back.concat hlast (List.nodup_reverse.mpr h.nodup) hnew hg
  nodup := List.nodup_cons.mpr ⟨hb, h.nodup⟩

/-- Unlinking the first node. -/
theorem pop (h : Doubly f g (b :: l)) (hsecond : l.head? = some c) :
    Doubly f (Function.update g c none) l where
  forth := h.forth.2
  back := by
    have hnodup := (List.nodup_cons.mp h.nodup).2
    have hlast : l.reverse.getLast? = some c := by rw [List.getLast?_reverse, hsecond]
    have hback := h.back
    rw [List.reverse_cons] at hback
    exact hback.drop_concat hlast (List.nodup_reverse.mpr hnodup)
  nodup := (List.nodup_cons.mp h.nodup).2

end Doubly

end CloRedis.Library
