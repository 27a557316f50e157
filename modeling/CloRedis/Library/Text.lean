import Mathlib.Data.List.DropRight
import Mathlib.Data.List.TakeWhile
import Mathlib.Tactic

/-!
Splitting a text at a separator, and stripping the padding off its ends. A
text is a list of characters of any type; what is padding is told by a
predicate.
-/

namespace CloRedis.Library

variable {α : Type*}

/-! ### Splitting -/

section Split

variable [BEq α] [LawfulBEq α] {x : α}

omit [LawfulBEq α] in
theorem length_splitOn (x : α) (l : List α) : (l.splitOn x).length = l.count x + 1 := by
  induction l with
  | nil => rfl
  | cons a l ih =>
      rw [List.splitOn_cons_eq_if_modifyHead, List.count_cons]
      split
      · rw [List.length_cons, ih]
      · rw [List.length_modifyHead, ih, Nat.add_zero]

theorem splitOn_pair {a b : List α} (ha : x ∉ a) (hb : x ∉ b) :
    (a ++ x :: b).splitOn x = [a, b] := by
  rw [List.splitOn_append_cons_self_of_not_mem ha, List.splitOn_eq_singleton hb]

/-- Two parts come from a text with one separator. -/
theorem splitOn_eq_pair {l a b : List α} (h : l.splitOn x = [a, b]) :
    l = a ++ x :: b ∧ x ∉ a ∧ x ∉ b := by
  have hjoin : [x].intercalate (l.splitOn x) = l := List.intercalate_splitOn x
  rw [h] at hjoin
  have hl : l = a ++ x :: b := by simpa using hjoin.symm
  have hcount : l.count x = 1 := by
    have hlen := length_splitOn x l
    rw [h] at hlen
    simp only [List.length_cons, List.length_nil] at hlen
    omega
  rw [hl, List.count_append, List.count_cons_self] at hcount
  refine ⟨hl, List.count_eq_zero.mp ?_, List.count_eq_zero.mp ?_⟩ <;> omega

/-- The parts in front of and behind the only separator are determined. -/
theorem append_separator_inj {a b a' b' : List α} (ha : x ∉ a) (hb : x ∉ b) (ha' : x ∉ a')
    (hb' : x ∉ b') (h : a ++ x :: b = a' ++ x :: b') : a = a' ∧ b = b' := by
  have hsplit := splitOn_pair ha hb
  rw [h, splitOn_pair ha' hb'] at hsplit
  simpa using hsplit.symm

end Split

/-! ### Stripping -/

/-- The text without the padding at its ends. -/
def strip (p : α → Bool) (l : List α) : List α := (l.dropWhile p).rdropWhile p

/-- There is no padding at the ends. -/
structure Bare (p : α → Bool) (l : List α) : Prop where
  front : ∀ c ∈ l.head?, p c = false
  back : ∀ c ∈ l.getLast?, p c = false

section Strip

variable {p : α → Bool} {lead l trail : List α}

theorem dropWhile_of_head {p : α → Bool} {l : List α} (h : ∀ c ∈ l.head?, p c = false) :
    l.dropWhile p = l := by
  cases l with
  | nil => rfl
  | cons c l =>
      rw [List.dropWhile_cons_of_neg]
      rw [h c rfl]
      exact Bool.false_ne_true

theorem head_dropWhile (p : α → Bool) (l : List α) :
    ∀ c ∈ (l.dropWhile p).head?, p c = false := by
  have hstop := List.head?_dropWhile_not p l
  intro c hc
  rw [hc] at hstop
  exact hstop

theorem getLast_rdropWhile (p : α → Bool) (l : List α) :
    ∀ c ∈ (l.rdropWhile p).getLast?, p c = false := by
  unfold List.rdropWhile
  rw [List.getLast?_reverse]
  exact head_dropWhile p l.reverse

theorem strip_lead (hlead : ∀ c ∈ lead, p c = true) (l : List α) :
    strip p (lead ++ l) = strip p l := by
  unfold strip
  rw [List.dropWhile_append_of_pos hlead]

theorem drop_takeWhile (p : α → Bool) (l : List α) :
    l.drop (l.takeWhile p).length = l.dropWhile p := by
  have hsplit := List.takeWhile_append_dropWhile (p := p) (l := l)
  calc
    l.drop (l.takeWhile p).length =
        (l.takeWhile p ++ l.dropWhile p).drop (l.takeWhile p).length := by rw [hsplit]
    _ = l.dropWhile p := List.drop_left

/-- What is left after the padding at both ends is counted. The padding behind
is looked for after the first character that is none. -/
theorem strip_eq_range (p : α → Bool) (l : List α) :
    strip p l = (l.drop (l.takeWhile p).length).take (l.length - (l.takeWhile p).length -
      ((l.drop ((l.takeWhile p).length + 1)).reverse.takeWhile p).length) := by
  have hstop := head_dropWhile p l
  rw [← List.drop_drop, ← List.length_drop, drop_takeWhile, strip]
  cases hrest : l.dropWhile p with
  | nil => rfl
  | cons c rest =>
      rw [hrest] at hstop
      have hc : ¬ p c = true := by
        rw [hstop c rfl]
        exact Bool.false_ne_true
      have hcount : ((c :: rest).reverse.takeWhile p).length =
          (rest.reverse.takeWhile p).length := by
        rw [List.reverse_cons, List.takeWhile_append, List.takeWhile_cons_of_neg hc,
          List.append_nil]
        split_ifs with hall
        · exact hall.symm
        · rfl
      rw [List.rdropWhile, ← drop_takeWhile, hcount, List.reverse_drop, List.reverse_reverse,
        List.length_reverse]
      rfl

theorem strip_blank (hblank : ∀ c ∈ l, p c = true) : strip p l = [] := by
  unfold strip
  rw [List.dropWhile_eq_nil_iff.mpr hblank]
  rfl

theorem rdropWhile_trail (l : List α) (htrail : ∀ c ∈ trail, p c = true) :
    (l ++ trail).rdropWhile p = l.rdropWhile p := by
  unfold List.rdropWhile
  rw [List.reverse_append, List.dropWhile_append_of_pos]
  intro c hc
  exact htrail c (List.mem_reverse.mp hc)

theorem strip_trail (l : List α) (htrail : ∀ c ∈ trail, p c = true) :
    strip p (l ++ trail) = strip p l := by
  unfold strip
  rw [List.dropWhile_append]
  split
  · rename_i hempty
    have hnone : l.dropWhile p = [] := by simpa using hempty
    have hblank : trail.dropWhile p = [] := List.dropWhile_eq_nil_iff.mpr htrail
    rw [hnone, hblank]
  · exact rdropWhile_trail _ htrail

theorem strip_of_bare (h : Bare p l) : strip p l = l := by
  unfold strip
  rw [dropWhile_of_head h.front, List.rdropWhile_eq_self_iff]
  intro hne
  have hlast := h.back (l.getLast hne) (List.getLast?_eq_getLast_of_ne_nil hne)
  rw [hlast]
  exact Bool.false_ne_true

/-- Padding around a bare text is what stripping takes off. -/
theorem strip_pad (hlead : ∀ c ∈ lead, p c = true) (h : Bare p l)
    (htrail : ∀ c ∈ trail, p c = true) : strip p (lead ++ l ++ trail) = l := by
  rw [strip_trail _ htrail, strip_lead hlead, strip_of_bare h]

theorem exists_lead (p : α → Bool) (l : List α) :
    ∃ lead, l = lead ++ l.dropWhile p ∧ ∀ c ∈ lead, p c = true :=
  ⟨l.takeWhile p, List.takeWhile_append_dropWhile.symm, fun _ hc => List.mem_takeWhile_imp hc⟩

theorem exists_trail (p : α → Bool) (l : List α) :
    ∃ trail, l = l.rdropWhile p ++ trail ∧ ∀ c ∈ trail, p c = true :=
  ⟨l.rtakeWhile p, (List.rdropWhile_append_rtakeWhile ..).symm,
    fun _ hc => List.mem_rtakeWhile_imp hc⟩

/-- Every text is its stripped text with padding around it. -/
theorem exists_padding (p : α → Bool) (l : List α) :
    ∃ lead trail, l = lead ++ strip p l ++ trail ∧ (∀ c ∈ lead, p c = true) ∧
      ∀ c ∈ trail, p c = true := by
  obtain ⟨lead, hlead, hpadding⟩ := exists_lead p l
  obtain ⟨trail, htrail, hpadding'⟩ := exists_trail p (l.dropWhile p)
  refine ⟨lead, trail, ?_, hpadding, hpadding'⟩
  rw [List.append_assoc, strip, ← htrail]
  exact hlead

theorem strip_rdropWhile (p : α → Bool) (l : List α) : strip p (l.rdropWhile p) = strip p l := by
  obtain ⟨trail, hl, htrail⟩ := exists_trail p l
  conv_rhs => rw [hl, strip_trail _ htrail]

theorem strip_eq_nil_iff : strip p l = [] ↔ ∀ c ∈ l, p c = true := by
  constructor
  · intro hnone c hc
    obtain ⟨lead, trail, hl, hlead, htrail⟩ := exists_padding p l
    rw [hl, hnone, List.append_nil] at hc
    rcases List.mem_append.mp hc with h | h
    · exact hlead c h
    · exact htrail c h
  · exact strip_blank

theorem getLast?_pair (a : List α) (x : α) {b : List α} (hb : b ≠ []) :
    (a ++ x :: b).getLast? = b.getLast? := by
  rw [List.getLast?_append]
  cases b with
  | nil => exact absurd rfl hb
  | cons d b =>
      rw [List.getLast?_cons_cons, List.getLast?_eq_getLast_of_ne_nil (List.cons_ne_nil d b)]
      rfl

/-- Two bare texts with a character between them are bare. -/
theorem Bare.pair {a b : List α} (ha : Bare p a) (hb : Bare p b) (hane : a ≠ []) (hbne : b ≠ [])
    (x : α) : Bare p (a ++ x :: b) where
  front c hc := by
    cases a with
    | nil => exact absurd rfl hane
    | cons d a => exact ha.front c hc
  back c hc := by
    rw [getLast?_pair a x hbne] at hc
    exact hb.back c hc

/-- Stripping a text around a character that is no padding strips the outer
ends of the two parts. -/
theorem strip_pair {x : α} (hx : p x = false) (a b : List α) :
    strip p (a ++ x :: b) = a.dropWhile p ++ x :: b.rdropWhile p := by
  obtain ⟨lead, ha, hlead⟩ := exists_lead p a
  obtain ⟨trail, hb, htrail⟩ := exists_trail p b
  have hwhole : a ++ x :: b = lead ++ (a.dropWhile p ++ x :: b.rdropWhile p) ++ trail := by
    conv_lhs => rw [ha, hb]
    simp
  rw [hwhole]
  apply strip_pad hlead ?_ htrail
  constructor
  · have hhead := head_dropWhile p a
    intro c hc
    cases hdrop : a.dropWhile p with
    | nil =>
        rw [hdrop] at hc
        cases hc
        exact hx
    | cons d rest =>
        rw [hdrop] at hc hhead
        exact hhead c hc
  · have hlast := getLast_rdropWhile p b
    intro c hc
    cases hdrop : b.rdropWhile p with
    | nil =>
        rw [hdrop, List.getLast?_append] at hc
        cases hc
        exact hx
    | cons d rest =>
        rw [hdrop] at hlast hc
        rw [getLast?_pair _ x (List.cons_ne_nil d rest)] at hc
        exact hlast c hc

end Strip

end CloRedis.Library
