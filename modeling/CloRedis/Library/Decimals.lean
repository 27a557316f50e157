import Mathlib.Tactic

/-!
Decimal notation without leading zeros. A number and its digits determine each
other, and so do an integer and its digits behind an optional minus.
-/

namespace CloRedis.Library

theorem digitChar_sub {c : Char} (h : c.isDigit = true) :
    c.toNat - '0'.toNat < 10 ∧ Nat.digitChar (c.toNat - '0'.toNat) = c := by
  simp only [Char.isDigit, Bool.and_eq_true, decide_eq_true_eq] at h
  have hlow : 48 ≤ c.toNat := UInt32.le_iff_toNat_le.mp h.1
  have hhigh : c.toNat ≤ 57 := UInt32.le_iff_toNat_le.mp h.2
  have hzero : '0'.toNat = 48 := rfl
  have hlt : c.toNat - '0'.toNat < 10 := by omega
  refine ⟨hlt, ?_⟩
  apply Char.toNat_inj.mp
  rw [Nat.toNat_digitChar_of_lt_ten hlt]
  omega

theorem sub_pos_of_ne_zero {c : Char} (h : c.isDigit = true) (hne : c ≠ '0') :
    0 < c.toNat - '0'.toNat := by
  obtain ⟨_, hchar⟩ := digitChar_sub h
  apply Nat.pos_of_ne_zero
  intro hzero
  rw [hzero] at hchar
  exact hne hchar.symm

/-- Digits behind those of a positive number are its further digits. -/
theorem toDigits_ofDigitChars {v : Nat} (hv : 0 < v) {ds : List Char}
    (hds : ∀ c ∈ ds, c.isDigit = true) :
    Nat.toDigits 10 (Nat.ofDigitChars 10 ds v) = Nat.toDigits 10 v ++ ds := by
  induction ds generalizing v with
  | nil => rw [Nat.ofDigitChars_nil, List.append_nil]
  | cons c ds ih =>
      obtain ⟨hc, hrest⟩ := List.forall_mem_cons.mp hds
      obtain ⟨hlt, hchar⟩ := digitChar_sub hc
      rw [Nat.ofDigitChars_cons, ih (by omega) hrest,
        ← Nat.toDigits_append_toDigits (by decide) hv hlt, Nat.toDigits_of_lt_base hlt, hchar,
        List.append_assoc]
      rfl

/-- The digits of a positive number begin with one that is not zero. -/
theorem toDigits_cons {n : Nat} (hn : 0 < n) :
    ∃ c ds, Nat.toDigits 10 n = c :: ds ∧ c.isDigit = true ∧ c ≠ '0' ∧
      (∀ d ∈ ds, d.isDigit = true) ∧ Nat.ofDigitChars 10 ds (c.toNat - '0'.toNat) = n := by
  have hdigit (d : Char) (hd : d ∈ Nat.toDigits 10 n) : d.isDigit = true :=
    Nat.isDigit_of_mem_toDigits (by decide) (by decide) hd
  have hvalue := Nat.ofDigitChars_ten_toDigits (n := n)
  have hhead : (Nat.toDigits 10 n).head? ≠ some '0' := by
    clear hdigit hvalue
    induction n using Nat.strongRecOn with
    | ind n ih =>
        by_cases hlt : n < 10
        · rw [Nat.toDigits_of_lt_base hlt, List.head?_cons, ne_eq, Option.some.injEq,
            Nat.digitChar_eq_zero]
          omega
        · rw [Nat.toDigits_of_base_le (by decide) (by omega),
            List.head?_append_of_ne_nil _ Nat.toDigits_ne_nil]
          exact ih (n / 10) (by omega) (by omega)
  cases hds : Nat.toDigits 10 n with
  | nil => exact absurd hds Nat.toDigits_ne_nil
  | cons c ds =>
      rw [hds] at hdigit hvalue hhead
      rw [Nat.ofDigitChars_cons, Nat.mul_zero, Nat.zero_add] at hvalue
      exact ⟨c, ds, rfl, hdigit c (List.mem_cons_self ..), fun h => hhead (h ▸ rfl),
        fun d hd => hdigit d (List.mem_cons_of_mem _ hd), hvalue⟩

theorem le_ofDigitChars (ds : List Char) (v : Nat) : v ≤ Nat.ofDigitChars 10 ds v := by
  rw [Nat.ofDigitChars_eq_ofDigitChars_zero]
  exact Nat.le_add_right_of_le (Nat.le_mul_of_pos_left v (Nat.pow_pos (by decide)))

/-- Four more digits for four powers of ten. -/
theorem length_toDigits_div {n : Nat} (h : 10000 ≤ n) :
    (Nat.toDigits 10 n).length = (Nat.toDigits 10 (n / 10000)).length + 4 := by
  have hten (m : Nat) (hm : 10 ≤ m) :
      (Nat.toDigits 10 m).length = (Nat.toDigits 10 (m / 10)).length + 1 := by
    rw [Nat.toDigits_of_base_le (by decide) hm, List.length_append]
    rfl
  have hdiv : n / 10 / 10 / 10 / 10 = n / 10000 := by
    simp only [Nat.div_div_eq_div_mul]
  rw [hten n (by omega), hten (n / 10) (by omega), hten (n / 10 / 10) (by omega),
    hten (n / 10 / 10 / 10) (by omega), hdiv]

/-- An integer in decimal notation. -/
def decimal (n : Int) : List Char := (toString n).toList

theorem decimal_natCast (n : Nat) : decimal n = Nat.toDigits 10 n := by
  unfold decimal
  rw [Int.toString_eq_repr, Int.repr_eq_if, if_pos (Int.natCast_nonneg n), Int.toNat_natCast,
    Nat.toList_repr]

theorem decimal_neg {n : Nat} (h : 0 < n) : decimal (-n) = '-' :: Nat.toDigits 10 n := by
  unfold decimal
  rw [Int.toString_eq_repr, Int.repr_eq_if, if_neg (by omega), neg_neg, Int.toNat_natCast,
    String.toList_append, Nat.toList_repr]
  rfl

/-- What an integer looks like: zero, or digits that do not begin with zero,
with or without a minus. -/
inductive Decimals : List Char → Int → Prop where
  | zero : Decimals ['0'] 0
  | pos {c : Char} {ds : List Char} : c.isDigit = true → c ≠ '0' → (∀ d ∈ ds, d.isDigit = true) →
      Decimals (c :: ds) (Nat.ofDigitChars 10 ds (c.toNat - '0'.toNat))
  | neg {c : Char} {ds : List Char} : c.isDigit = true → c ≠ '0' → (∀ d ∈ ds, d.isDigit = true) →
      Decimals ('-' :: c :: ds) (-Nat.ofDigitChars 10 ds (c.toNat - '0'.toNat))

theorem toDigits_ofDigitChars_cons {c : Char} {ds : List Char} (hc : c.isDigit = true)
    (hne : c ≠ '0') (hds : ∀ d ∈ ds, d.isDigit = true) :
    Nat.toDigits 10 (Nat.ofDigitChars 10 ds (c.toNat - '0'.toNat)) = c :: ds := by
  obtain ⟨hlt, hchar⟩ := digitChar_sub hc
  rw [toDigits_ofDigitChars (sub_pos_of_ne_zero hc hne) hds, Nat.toDigits_of_lt_base hlt, hchar]
  rfl

theorem decimals_iff {text : List Char} {n : Int} : Decimals text n ↔ text = decimal n := by
  constructor
  · intro h
    cases h with
    | zero => rfl
    | pos hc hne hds => rw [decimal_natCast, toDigits_ofDigitChars_cons hc hne hds]
    | @neg c ds hc hne hds =>
        have hpos := (sub_pos_of_ne_zero hc hne).trans_le (le_ofDigitChars ds _)
        rw [decimal_neg hpos, toDigits_ofDigitChars_cons hc hne hds]
  · rintro rfl
    obtain ⟨m, rfl | rfl⟩ := n.eq_nat_or_neg
    · rw [decimal_natCast]
      rcases Nat.eq_zero_or_pos m with rfl | hm
      · exact .zero
      · obtain ⟨c, ds, htext, hc, hne, hds, hvalue⟩ := toDigits_cons hm
        rw [htext, ← hvalue]
        exact .pos hc hne hds
    · rcases Nat.eq_zero_or_pos m with rfl | hm
      · exact .zero
      · obtain ⟨c, ds, htext, hc, hne, hds, hvalue⟩ := toDigits_cons hm
        rw [decimal_neg hm, htext, ← hvalue]
        exact .neg hc hne hds

/-- A decimal is made of digits, but for a minus. -/
theorem Decimals.isDigit {text : List Char} {n : Int} (h : Decimals text n) {c : Char}
    (hc : c ∈ text) : c = '-' ∨ c.isDigit = true := by
  cases h with
  | zero => exact .inr (List.mem_singleton.mp hc ▸ rfl)
  | pos hfirst _ hds =>
      rcases List.mem_cons.mp hc with rfl | hc
      · exact .inr hfirst
      · exact .inr (hds c hc)
  | neg hfirst _ hds =>
      rcases List.mem_cons.mp hc with rfl | hc
      · exact .inl rfl
      · rcases List.mem_cons.mp hc with rfl | hc
        · exact .inr hfirst
        · exact .inr (hds c hc)

end CloRedis.Library
