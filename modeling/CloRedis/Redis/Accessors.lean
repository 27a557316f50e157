import CloRedis.Hiredis.Delivery
import CloRedis.Manager.Parsing

/-!
The conversions of `reply.cc`. A number arrives as an integer or as a bulk string,
and the conversions do not show which.
-/

namespace CloRedis

open Library

namespace RedisReply

/-- `toInt32`, where the conversions to `int32_t` keep the low bits. -/
def toInt32 (r : RedisReply) : Int :=
  match r.reply with
  | some ⟨.integer, integer, _, _⟩ => CloRedis.toInt32 integer
  | some ⟨.string, _, str, _⟩ => atoi (cText str)
  | _ => 0

/-- `toInt64`; `atol` is `strtol` in base 10. -/
def toInt64 (r : RedisReply) : Int :=
  match r.reply with
  | some ⟨.integer, integer, _, _⟩ => integer
  | some ⟨.string, _, str, _⟩ => strtol (cText str)
  | _ => -1

end RedisReply

/-! ### Numbers -/

theorem Reading.strtol_eq {text lead sign digits rest : List Char}
    (h : Reading text lead sign digits rest) (hne : digits ≠ []) :
    strtol text = max (-2 ^ 63) (min (2 ^ 63 - 1) (signed sign (digitValue digits))) := by
  unfold strtol
  rw [h.dropWhile_space hne, h.signOf_eq hne]
  dsimp only
  rw [takeWhile_digits h.digits h.rest]
  by_cases hminus : sign = ['-'] <;> simp [signed, hminus]

theorem reading_toDigits {sign : List Char} (hsign : sign = [] ∨ sign = ['+'] ∨ sign = ['-'])
    (n : Nat) : Reading (sign ++ Nat.toDigits 10 n) [] sign (Nat.toDigits 10 n) [] where
  text := by rw [List.append_nil, List.nil_append]
  lead _ hc := absurd hc List.not_mem_nil
  sign := hsign
  digits := (Decimal.ofNat n).isDigit
  rest _ hc := absurd hc (by simp)

/-- `strtol` reads the decimal notation of an integer back. -/
theorem strtol_decimal {n : Int} (hlow : -2 ^ 63 ≤ n) (hhigh : n < 2 ^ 63) :
    strtol (decimal n) = n := by
  have hvalue (k : Nat) : digitValue (Nat.toDigits 10 k) = k := (Decimal.ofNat k).value
  have hclamp : max (-2 ^ 63) (min (2 ^ 63 - 1) n) = n := by omega
  obtain ⟨k, rfl | rfl⟩ := n.eq_nat_or_neg
  · have hread := (reading_toDigits (.inl rfl) k).strtol_eq Nat.toDigits_ne_nil
    rw [hvalue] at hread
    rw [decimal_natCast]
    exact hread.trans hclamp
  · rcases Nat.eq_zero_or_pos k with rfl | hk
    · rfl
    · have hread := (reading_toDigits (.inr (.inr rfl)) k).strtol_eq Nat.toDigits_ne_nil
      rw [hvalue] at hread
      rw [decimal_neg hk]
      exact hread.trans hclamp

theorem cText_decimal (n : Int) : cText (decimal n) = decimal n := by
  apply List.takeWhile_eq_self_iff.mpr
  intro c hc
  rw [decide_eq_true_eq]
  rcases (decimals_iff.mpr rfl : Decimals (decimal n) n).isDigit hc with rfl | hdigit
  · decide
  · rintro rfl
    exact absurd hdigit (by decide)

/-- A number as the server sends it. -/
def numberReply (asText : Bool) (n : Int) : HiredisReply :=
  if asText then ⟨.string, 0, decimal n, []⟩ else ⟨.integer, n, [], []⟩

/-- The conversions give the number, whichever way it was sent. -/
theorem conversions_numberReply {r : RedisReply} {asText : Bool} {n : Int}
    (hreply : r.reply = some (numberReply asText n)) (hlow : -2 ^ 63 ≤ n) (hhigh : n < 2 ^ 63) :
    r.toInt64 = n ∧ r.toInt32 = toInt32 n := by
  unfold RedisReply.toInt64 RedisReply.toInt32
  rw [hreply]
  cases asText with
  | false => exact ⟨rfl, rfl⟩
  | true =>
      simp only [numberReply, if_pos, cText_decimal]
      exact ⟨strtol_decimal hlow hhigh, by rw [atoi, strtol_decimal hlow hhigh]; rfl⟩

/-! ### From the server to the caller -/

theorem length_decimal_le {n : Int} (hlow : -2 ^ 63 ≤ n) (hhigh : n < 2 ^ 63) :
    (decimal n).length ≤ 21 := by
  have hdigits {k : Nat} (hk : k ≤ 2 ^ 63) : (Nat.toDigits 10 k).length ≤ 20 :=
    (Nat.length_toDigits_le_iff (by decide) (by decide)).mpr (by omega)
  obtain ⟨k, rfl | rfl⟩ := n.eq_nat_or_neg
  · rw [decimal_natCast]
    exact (hdigits (by omega)).trans (by decide)
  · rcases Nat.eq_zero_or_pos k with rfl | hk
    · decide
    · rw [decimal_neg hk]
      exact Nat.succ_le_succ (hdigits (by omega))

theorem numberReply_sendable (asText : Bool) {n : Int} (hlow : -2 ^ 63 ≤ n) (hhigh : n < 2 ^ 63) :
    (numberReply asText n).Sendable maxDepth := by
  cases asText with
  | false => exact .inl ⟨rfl, rfl, hlow, hhigh⟩
  | true => exact .inl ⟨rfl, rfl, (length_decimal_le hlow hhigh).trans_lt (by decide)⟩

namespace ReaderSession

variable {calls : List ReaderCall} {s : ReaderSession}

/-- Numbers that the server sends, each as an integer or as a bulk string, and in
whatever pieces their bytes arrive, are the numbers that the conversions give. -/
theorem numbers_converted {numbers : List (Bool × Int)}
    (hnumbers : ∀ number ∈ numbers, -2 ^ 63 ≤ number.2 ∧ number.2 < 2 ^ 63)
    (hoffered : offered calls =
      HiredisReply.encodeAll (numbers.map fun number => numberReply number.1 number.2))
    (hrun : run step {} calls = .ok s) (hsmall : Throughout step Small {} calls)
    (hdrained : s.drained = true) (hmemory : s.reader.err ≠ some .oom) :
    ∃ items : List HiredisReply, s.replies = items.map HiredisReply.built ∧
      ∀ (r : RedisReply) (reclaim : Bool) (state : ErrState),
        (items.map fun item => (r.update (some item) reclaim state none).toInt64) =
          numbers.map Prod.snd ∧
        (items.map fun item => (r.update (some item) reclaim state none).toInt32) =
          numbers.map fun number => toInt32 number.2 := by
  refine ⟨numbers.map fun number => numberReply number.1 number.2, ?_, ?_⟩
  · rw [HiredisReply.encodeAll_eq] at hoffered
    refine (replies_of_parts hrun hsmall hdrained hmemory (denoting_encodeAll ?_) hoffered).1
    intro item hitem
    obtain ⟨number, hnumber, rfl⟩ := List.mem_map.mp hitem
    obtain ⟨hlow, hhigh⟩ := hnumbers number hnumber
    exact numberReply_sendable number.1 hlow hhigh
  · intro r reclaim state
    have hboth (number : Bool × Int) (hnumber : number ∈ numbers) :=
      conversions_numberReply
        (RedisReply.update_reply r (some (numberReply number.1 number.2)) reclaim state none)
        (hnumbers number hnumber).1 (hnumbers number hnumber).2
    rw [List.map_map, List.map_map]
    constructor
    · apply List.map_congr_left
      exact fun number hnumber => (hboth number hnumber).1
    · apply List.map_congr_left
      exact fun number hnumber => (hboth number hnumber).2

/-- One as an integer, another as text, with a break inside the second. -/
def numberCalls : List ReaderCall :=
  [.feed ":7\r\n$2\r".toList {}, .getReply fun _ => true, .getReply fun _ => true,
    .feed "\n-3\r\n".toList {}, .getReply fun _ => true, .getReply fun _ => true]

theorem numbers_converted_of_two :
    ∃ items : List HiredisReply, (ended numberCalls).replies = items.map HiredisReply.built ∧
      ∀ (r : RedisReply) (reclaim : Bool) (state : ErrState),
        (items.map fun item => (r.update (some item) reclaim state none).toInt64) =
          [(false, (7 : Int)), (true, -3)].map Prod.snd ∧
        (items.map fun item => (r.update (some item) reclaim state none).toInt32) =
          [(false, (7 : Int)), (true, -3)].map fun number => toInt32 number.2 :=
  numbers_converted (by decide) (by decide +kernel) (rfl : run step {} numberCalls = _)
    (throughout_small alive_start (by decide +kernel)) rfl nofun

end ReaderSession

end CloRedis
