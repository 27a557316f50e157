import CloRedis.Library.Decimals
import CloRedis.Library.Loop

/-!
The numbers of the protocol: `string2ll` of `read.c` reads them, and
`countDigits` of `hiredis.c` says how long they are. The text read is the one
and only notation of the number.
-/

namespace CloRedis

open Library

def ullongMax : Nat := 2 ^ 64 - 1

def llongMax : Nat := 2 ^ 63 - 1

/-- The loop of `string2ll`: the value of the digits at the front, and what is
behind them. The `unsigned long long` must not overflow. -/
def string2llDigits (v : Nat) : List Char → Option (Nat × List Char)
  | [] => some (v, [])
  | c :: p =>
      if c.isDigit then
        if ullongMax / 10 < v then none
        else if ullongMax - (c.toNat - '0'.toNat) < v * 10 then none
        else string2llDigits (v * 10 + (c.toNat - '0'.toNat)) p
      else some (v, c :: p)

/-- The number behind an optional minus. Its first digit is not zero. -/
def string2llUnsigned : List Char → Option Nat
  | [] => none
  | c :: p =>
      if '1' ≤ c ∧ c ≤ '9' then
        match string2llDigits (c.toNat - '0'.toNat) p with
        | some (v, []) => some v
        | _ => none
      else none

/-- `string2ll`. Its second test for a single zero comes too late to find one. -/
def string2ll : List Char → Option Int
  | [] => none
  | ['0'] => some 0
  | '-' :: p =>
      match string2llUnsigned p with
      | some v => if llongMax + 1 < v then none else some (-v)
      | none => none
  | s =>
      match string2llUnsigned s with
      | some v => if llongMax < v then none else some v
      | none => none

theorem isDigit_iff_nonzero {c : Char} : '1' ≤ c ∧ c ≤ '9' ↔ c.isDigit = true ∧ c ≠ '0' := by
  simp only [Char.isDigit, Bool.and_eq_true, decide_eq_true_eq, Char.le_def, ne_eq,
    ← Char.toNat_inj]
  have hval : c.toNat = c.val.toNat := rfl
  simp only [UInt32.le_iff_toNat_le, hval]
  show 49 ≤ c.val.toNat ∧ c.val.toNat ≤ 57 ↔
    (48 ≤ c.val.toNat ∧ c.val.toNat ≤ 57) ∧ ¬c.val.toNat = 48
  omega

/-- The loop reads all of a text that fits. -/
theorem string2llDigits_of_fits {ds : List Char} (hds : ∀ c ∈ ds, c.isDigit = true) {v : Nat}
    (h : Nat.ofDigitChars 10 ds v ≤ ullongMax) :
    string2llDigits v ds = some (Nat.ofDigitChars 10 ds v, []) := by
  induction ds generalizing v with
  | nil => rfl
  | cons c ds ih =>
      obtain ⟨hc, hrest⟩ := List.forall_mem_cons.mp hds
      rw [Nat.ofDigitChars_cons, Nat.mul_comm 10 v] at h ⊢
      have hle := (le_ofDigitChars ds _).trans h
      have hdigit := (digitChar_sub hc).1
      unfold ullongMax at hle
      have hmul : ¬ullongMax / 10 < v := by
        unfold ullongMax
        omega
      have hadd : ¬ullongMax - (c.toNat - '0'.toNat) < v * 10 := by
        unfold ullongMax
        omega
      rw [string2llDigits, if_pos hc, if_neg hmul, if_neg hadd]
      exact ih hrest h

/-- What the loop reads to the end is made of digits. -/
theorem string2llDigits_some {p : List Char} {v w : Nat}
    (h : string2llDigits v p = some (w, [])) :
    (∀ c ∈ p, c.isDigit = true) ∧ w = Nat.ofDigitChars 10 p v := by
  induction p generalizing v with
  | nil =>
      cases h
      exact ⟨fun _ hc => absurd hc List.not_mem_nil, rfl⟩
  | cons c p ih =>
      rw [string2llDigits] at h
      split at h
      · rename_i hc
        split at h
        · cases h
        · split at h
          · cases h
          · obtain ⟨hp, hw⟩ := ih h
            rw [Nat.ofDigitChars_cons, Nat.mul_comm 10 v]
            exact ⟨List.forall_mem_cons.mpr ⟨hc, hp⟩, hw⟩
      · cases h

theorem string2llUnsigned_cons {c : Char} {ds : List Char} (hc : c.isDigit = true) (hne : c ≠ '0')
    (hds : ∀ d ∈ ds, d.isDigit = true)
    (hfits : Nat.ofDigitChars 10 ds (c.toNat - '0'.toNat) ≤ ullongMax) :
    string2llUnsigned (c :: ds) = some (Nat.ofDigitChars 10 ds (c.toNat - '0'.toNat)) := by
  rw [string2llUnsigned, if_pos (isDigit_iff_nonzero.mpr ⟨hc, hne⟩),
    string2llDigits_of_fits hds hfits]

theorem string2llUnsigned_some {p : List Char} {v : Nat} (h : string2llUnsigned p = some v) :
    ∃ c ds, p = c :: ds ∧ c.isDigit = true ∧ c ≠ '0' ∧ (∀ d ∈ ds, d.isDigit = true) ∧
      v = Nat.ofDigitChars 10 ds (c.toNat - '0'.toNat) := by
  cases p with
  | nil => cases h
  | cons c ds =>
      rw [string2llUnsigned] at h
      split at h
      · rename_i hfirst
        obtain ⟨hc, hne⟩ := isDigit_iff_nonzero.mp hfirst
        split at h
        · rename_i hloop
          cases h
          obtain ⟨hds, hv⟩ := string2llDigits_some hloop
          exact ⟨c, ds, rfl, hc, hne, hds, hv⟩
        · cases h
      · cases h

theorem string2ll_digit {c : Char} {p : List Char} (hc : c.isDigit = true) (hne : c ≠ '0') :
    string2ll (c :: p) =
      match string2llUnsigned (c :: p) with
      | some v => if llongMax < v then none else some v
      | none => none := by
  unfold string2ll
  split
  · rename_i heq
    cases heq
  · rename_i heq
    cases heq
    exact absurd rfl hne
  · rename_i heq
    cases heq
    cases hc
  · rfl

/-- `string2ll` reads the decimal notation of the 64-bit integers and nothing
else: no blanks, no plus, no leading zeros. -/
theorem string2ll_iff {s : List Char} {n : Int} :
    string2ll s = some n ↔ s = decimal n ∧ -2 ^ 63 ≤ n ∧ n < 2 ^ 63 := by
  rw [← decimals_iff]
  constructor
  · intro h
    unfold string2ll at h
    split at h
    · cases h
    · cases h
      exact ⟨.zero, by decide⟩
    · split at h
      · rename_i v hv
        obtain ⟨c, ds, rfl, hc, hne, hds, hvalue⟩ := string2llUnsigned_some hv
        split_ifs at h with hbig
        cases h
        unfold llongMax at hbig
        refine ⟨?_, by omega, by omega⟩
        rw [hvalue]
        exact .neg hc hne hds
      · cases h
    · split at h
      · rename_i v hv
        obtain ⟨c, ds, rfl, hc, hne, hds, hvalue⟩ := string2llUnsigned_some hv
        split_ifs at h with hbig
        cases h
        unfold llongMax at hbig
        refine ⟨?_, by omega, by omega⟩
        rw [hvalue]
        exact .pos hc hne hds
      · cases h
  · rintro ⟨h, hlow, hhigh⟩
    cases h with
    | zero => rfl
    | pos hc hne hds =>
        rw [string2ll_digit hc hne, string2llUnsigned_cons hc hne hds (by unfold ullongMax; omega)]
        apply if_neg
        unfold llongMax
        omega
    | @neg c ds hc hne hds =>
        show (match string2llUnsigned (c :: ds) with
          | some v => if llongMax + 1 < v then none else some (-(v : Int))
          | none => none) = _
        rw [string2llUnsigned_cons hc hne hds (by unfold ullongMax; omega)]
        apply if_neg
        unfold llongMax
        omega

theorem string2ll_decimal {n : Int} (hlow : -2 ^ 63 ≤ n) (hhigh : n < 2 ^ 63) :
    string2ll (decimal n) = some n :=
  string2ll_iff.mpr ⟨rfl, hlow, hhigh⟩

/-! ### How long they are -/

/-- One turn of the loop of `countDigits`. -/
def countDigitsBody (s : Nat × Nat) : (Nat × Nat) ⊕ Nat :=
  let (v, result) := s
  if v < 10 then .inr result
  else if v < 100 then .inr (result + 1)
  else if v < 1000 then .inr (result + 2)
  else if v < 10000 then .inr (result + 3)
  else .inl (v / 10000, result + 4)

def countDigits (v : Nat) : Nat :=
  runLoop countDigitsBody (fun s => s.2) (v + 1) (v, 1)

theorem length_toDigits_eq {n k : Nat} (hlow : 10 ^ k ≤ n) (hhigh : n < 10 ^ (k + 1)) :
    (Nat.toDigits 10 n).length = k + 1 := by
  have hle := (Nat.length_toDigits_le_iff (by decide) (Nat.succ_pos k)).mpr hhigh
  have hlt : ¬(Nat.toDigits 10 n).length ≤ k := by
    rcases Nat.eq_zero_or_pos k with rfl | hk
    · exact not_le.mpr Nat.length_toDigits_pos
    · rw [Nat.length_toDigits_le_iff (by decide) hk]
      exact not_lt.mpr hlow
  omega

theorem countDigits_loop (v : Nat) : Loop countDigitsBody (v, 1) (countDigits v) := by
  apply loop_runLoop (fun s => s.2) (fun s : Nat × Nat => s.1) _ (Nat.lt_succ_self v)
  rintro ⟨v, result⟩ s' hbody
  unfold countDigitsBody at hbody
  dsimp only at hbody
  split_ifs at hbody with h₁ h₂ h₃ h₄
  cases hbody
  show v / 10000 < v
  omega

theorem countDigits_eq (v : Nat) : countDigits v = (Nat.toDigits 10 v).length := by
  have hsum : ∀ s : Nat × Nat, s.2 + (Nat.toDigits 10 s.1).length = 1 + (Nat.toDigits 10 v).length →
      ∀ b, countDigitsBody s = .inr b → b = (Nat.toDigits 10 v).length := by
    rintro ⟨w, result⟩ hs b hbody
    unfold countDigitsBody at hbody
    dsimp only at hs hbody
    split_ifs at hbody with h₁ h₂ h₃ h₄
    · rw [Nat.toDigits_of_lt_base h₁, List.length_singleton] at hs
      cases hbody
      omega
    · rw [length_toDigits_eq (k := 1) (not_lt.mp h₁) h₂] at hs
      cases hbody
      omega
    · rw [length_toDigits_eq (k := 2) (not_lt.mp h₂) h₃] at hs
      cases hbody
      omega
    · rw [length_toDigits_eq (k := 3) (not_lt.mp h₃) h₄] at hs
      cases hbody
      omega
  refine (countDigits_loop v).invariant
    (I := fun s => s.2 + (Nat.toDigits 10 s.1).length = 1 + (Nat.toDigits 10 v).length) ?_
    (fun s b hs hbody => hsum s hs b hbody) rfl
  rintro ⟨w, result⟩ s' hs hbody
  unfold countDigitsBody at hbody
  dsimp only at hs hbody
  split_ifs at hbody with h₁ h₂ h₃ h₄
  cases hbody
  rw [length_toDigits_div (not_lt.mp h₄)] at hs
  show result + 4 + (Nat.toDigits 10 (w / 10000)).length = _
  omega

end CloRedis
