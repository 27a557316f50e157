import Mathlib.Logic.Function.Basic
import Mathlib.Tactic

/-!
Owners and what they own. Every owner holds at most one resource. The rules
say how the two properties of a discipline of unique ownership, that nobody
shares and that nothing live is without an owner, go through the acquisition,
the transfer and the release of a resource.
-/

namespace CloRedis.Library

variable {H R : Type*}

/-- Owners hold what is live, and no two of them the same. -/
structure Exclusive (own : H → Option R) (live : R → Prop) : Prop where
  held : ∀ x r, own x = some r → live r
  sole : ∀ x y r, own x = some r → own y = some r → x = y

/-- Besides, what is live has an owner. -/
structure Owned (own : H → Option R) (live : R → Prop) : Prop extends Exclusive own live where
  covered : ∀ r, live r → ∃ x, own x = some r

variable {own : H → Option R} {live live' : R → Prop}

theorem Exclusive.congr (h : Exclusive own live) (hlive : ∀ r, live' r ↔ live r) :
    Exclusive own live' :=
  ⟨fun x r hx => (hlive r).mpr (h.held x r hx), h.sole⟩

theorem Owned.congr (h : Owned own live) (hlive : ∀ r, live' r ↔ live r) : Owned own live' :=
  ⟨h.toExclusive.congr hlive, fun r hr => h.covered r ((hlive r).mp hr)⟩

theorem Owned.unique (h : Owned own live) {r : R} (hr : live r) : ∃! x, own x = some r := by
  obtain ⟨x, hx⟩ := h.covered r hr
  exact ⟨x, hx, fun y hy => h.sole y x r hy hx⟩

/-- Without owners nothing is live. -/
theorem Owned.none_live (h : Owned own live) (hnone : ∀ x, own x = none) (r : R) : ¬live r := by
  intro hr
  obtain ⟨x, hx⟩ := h.covered r hr
  rw [hnone x] at hx
  cases hx

variable [DecidableEq H]

/-- An owner forgets what it holds. -/
theorem Exclusive.drop (h : Exclusive own live) (x : H) :
    Exclusive (Function.update own x none) live := by
  have hkept : ∀ y r, Function.update own x none y = some r → own y = some r := by
    intro y r hy
    by_cases hyx : y = x
    · subst hyx
      simp at hy
    · rwa [Function.update_of_ne hyx] at hy
  constructor
  · intro y r hy
    exact h.held y r (hkept y r hy)
  · intro y z r hy hz
    exact h.sole y z r (hkept y r hy) (hkept z r hz)

theorem update_none {x : H} (hx : own x = none) : Function.update own x none = own := by
  rw [← hx]
  exact Function.update_eq_self x own

theorem Owned.drop (h : Owned own live) {x : H} (hx : own x = none) :
    Owned (Function.update own x none) live := by
  rwa [update_none hx]

/-- An owner takes a resource that becomes live. -/
theorem Exclusive.acquire (h : Exclusive own live) (x : H) {r : R} (hr : ¬live r) :
    Exclusive (Function.update own x (some r)) fun q => live q ∨ q = r := by
  constructor
  · intro y q hy
    by_cases hyx : y = x
    · subst hyx
      rw [Function.update_self, Option.some.injEq] at hy
      exact Or.inr hy.symm
    · rw [Function.update_of_ne hyx] at hy
      exact Or.inl (h.held y q hy)
  · intro y z q hy hz
    by_cases hyx : y = x <;> by_cases hzx : z = x
    · exact hyx.trans hzx.symm
    · rw [hyx, Function.update_self, Option.some.injEq] at hy
      rw [Function.update_of_ne hzx, ← hy] at hz
      exact absurd (h.held z r hz) hr
    · rw [hzx, Function.update_self, Option.some.injEq] at hz
      rw [Function.update_of_ne hyx, ← hz] at hy
      exact absurd (h.held y r hy) hr
    · rw [Function.update_of_ne hyx] at hy
      rw [Function.update_of_ne hzx] at hz
      exact h.sole y z q hy hz

theorem Owned.acquire (h : Owned own live) {x : H} (hx : own x = none) {r : R} (hr : ¬live r) :
    Owned (Function.update own x (some r)) fun q => live q ∨ q = r where
  toExclusive := h.toExclusive.acquire x hr
  covered := by
    rintro q (hq | rfl)
    · obtain ⟨y, hy⟩ := h.covered q hq
      have hyx : y ≠ x := by
        rintro rfl
        simp [hx] at hy
      exact ⟨y, by rw [Function.update_of_ne hyx, hy]⟩
    · exact ⟨x, Function.update_self ..⟩

/-- What an owner gives back is no longer live. -/
theorem Exclusive.release (h : Exclusive own live) {x : H} {r : R} (hx : own x = some r) :
    Exclusive (Function.update own x none) fun q => live q ∧ q ≠ r := by
  have hdrop := h.drop x
  refine ⟨?_, hdrop.sole⟩
  intro y q hy
  refine ⟨hdrop.held y q hy, ?_⟩
  rintro rfl
  by_cases hyx : y = x
  · subst hyx
    simp at hy
  · rw [Function.update_of_ne hyx] at hy
    exact hyx (h.sole y x q hy hx)

theorem Owned.release (h : Owned own live) {x : H} {r : R} (hx : own x = some r) :
    Owned (Function.update own x none) fun q => live q ∧ q ≠ r where
  toExclusive := h.toExclusive.release hx
  covered := by
    rintro q ⟨hq, hne⟩
    obtain ⟨y, hy⟩ := h.covered q hq
    have hyx : y ≠ x := by
      rintro rfl
      rw [hx, Option.some.injEq] at hy
      exact hne hy.symm
    exact ⟨y, by rw [Function.update_of_ne hyx, hy]⟩

/-- An owner without a resource takes what it finds, a new resource or none. -/
theorem Exclusive.take (h : Exclusive own live) {x : H} (hx : own x = none) {found : Option R}
    (hfresh : ∀ r ∈ found, ¬live r) (hlive : ∀ r, live' r ↔ live r ∨ found = some r) :
    Exclusive (Function.update own x found) live' := by
  cases found with
  | none =>
      rw [update_none hx]
      exact h.congr fun r => (hlive r).trans (by simp)
  | some r =>
      refine (h.acquire x (hfresh r rfl)).congr fun q => (hlive q).trans ?_
      rw [Option.some.injEq, eq_comm]

theorem Owned.take (h : Owned own live) {x : H} (hx : own x = none) {found : Option R}
    (hfresh : ∀ r ∈ found, ¬live r) (hlive : ∀ r, live' r ↔ live r ∨ found = some r) :
    Owned (Function.update own x found) live' := by
  cases found with
  | none =>
      rw [update_none hx]
      exact h.congr fun r => (hlive r).trans (by simp)
  | some r =>
      refine (h.acquire hx (hfresh r rfl)).congr fun q => (hlive q).trans ?_
      rw [Option.some.injEq, eq_comm]

/-- An owner gives back what it holds, if anything. -/
theorem Exclusive.give (h : Exclusive own live) (x : H)
    (hlive : ∀ r, live' r ↔ live r ∧ own x ≠ some r) :
    Exclusive (Function.update own x none) live' := by
  cases hx : own x with
  | none =>
      rw [update_none hx]
      exact h.congr fun r => (hlive r).trans (by simp [hx])
  | some r =>
      refine (h.release hx).congr fun q => (hlive q).trans ?_
      rw [hx, ne_eq, ne_eq, Option.some.injEq, eq_comm]

theorem Owned.give (h : Owned own live) (x : H)
    (hlive : ∀ r, live' r ↔ live r ∧ own x ≠ some r) :
    Owned (Function.update own x none) live' := by
  cases hx : own x with
  | none =>
      rw [update_none hx]
      exact h.congr fun r => (hlive r).trans (by simp [hx])
  | some r =>
      refine (h.release hx).congr fun q => (hlive q).trans ?_
      rw [hx, ne_eq, ne_eq, Option.some.injEq, eq_comm]

/-- One owner passes what it holds to another, which forgets what it held. -/
theorem Exclusive.transfer (h : Exclusive own live) (x y : H) :
    Exclusive (Function.update (Function.update own x (own y)) y none) live := by
  -- what someone holds afterwards, that someone or the passing owner held before
  have hfrom : ∀ z r, Function.update (Function.update own x (own y)) y none z = some r →
      z ≠ y ∧ (z = x ∧ own y = some r ∨ z ≠ x ∧ own z = some r) := by
    intro z r hz
    by_cases hzy : z = y
    · subst hzy
      simp at hz
    · rw [Function.update_of_ne hzy] at hz
      refine ⟨hzy, ?_⟩
      by_cases hzx : z = x
      · subst hzx
        rw [Function.update_self] at hz
        exact Or.inl ⟨rfl, hz⟩
      · rw [Function.update_of_ne hzx] at hz
        exact Or.inr ⟨hzx, hz⟩
  constructor
  · intro z r hz
    obtain ⟨_, ⟨_, hy⟩ | ⟨_, hz'⟩⟩ := hfrom z r hz
    · exact h.held y r hy
    · exact h.held z r hz'
  · intro z z' r hz hz'
    obtain ⟨hzy, hcase⟩ := hfrom z r hz
    obtain ⟨hzy', hcase'⟩ := hfrom z' r hz'
    rcases hcase with ⟨rfl, hy⟩ | ⟨_, hown⟩ <;> rcases hcase' with ⟨rfl, hy'⟩ | ⟨_, hown'⟩
    · rfl
    · exact absurd (h.sole z' y r hown' hy) hzy'
    · exact absurd (h.sole z y r hown hy') hzy
    · exact h.sole z z' r hown hown'

theorem Owned.transfer (h : Owned own live) {x : H} (hx : own x = none) (y : H) :
    Owned (Function.update (Function.update own x (own y)) y none) live where
  toExclusive := h.toExclusive.transfer x y
  covered := by
    intro r hr
    obtain ⟨z, hz⟩ := h.covered r hr
    have hzx : z ≠ x := by
      rintro rfl
      simp [hx] at hz
    by_cases hzy : z = y
    · subst hzy
      refine ⟨x, ?_⟩
      rw [Function.update_of_ne (Ne.symm hzx), Function.update_self, hz]
    · refine ⟨z, ?_⟩
      rw [Function.update_of_ne hzy, Function.update_of_ne hzx, hz]

/-- What the receiving owner held has no owner afterwards. -/
theorem Exclusive.transfer_loses (h : Exclusive own live) {x y : H} {r : R} (hx : own x = some r) :
    ¬Owned (Function.update (Function.update own x (own y)) y none) live := by
  intro howned
  obtain ⟨z, hz⟩ := howned.covered r (h.held x r hx)
  by_cases hzy : z = y
  · subst hzy
    simp at hz
  · rw [Function.update_of_ne hzy] at hz
    by_cases hzx : z = x
    · subst hzx
      rw [Function.update_self] at hz
      exact hzy (h.sole z y r hx hz)
    · rw [Function.update_of_ne hzx] at hz
      exact hzx (h.sole z x r hz hx)

end CloRedis.Library
