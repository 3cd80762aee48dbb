import Mathlib.Algebra.Order.Field.Basic
import Mathlib.Algebra.Order.Field.Rat
import Mathlib.Data.Rat.Cast.Order
import Mathlib.Tactic.FieldSimp
import Mathlib.Tactic.Linarith
import Mathlib.Tactic.NormNum
import StepQuery.Proofs.Number.Shortest

/-!
What number a decimal is, and what is left of it in 64 bits.  The test for whole numbers is exact, however
large the exponent.  The integer part of a whole number is the number itself if it fits, and otherwise
the one that its low bits stand for.
-/

namespace StepQuery

/-- The numbers between the bounds of 64 bits with a sign. -/
def Fits (number : ℚ) : Prop := -2 ^ 63 ≤ number ∧ number < 2 ^ 63

instance : DecidablePred Fits := fun _ => inferInstanceAs (Decidable (_ ∧ _))

theorem toInt_ofInt_eq_iff (whole : ℤ) : (Int64.ofInt whole).toInt = whole ↔ Fits whole := by
  constructor
  · intro same
    have least := (Int64.ofInt whole).le_toInt
    have most := (Int64.ofInt whole).toInt_lt
    rw [same] at least most
    exact ⟨by exact_mod_cast least, by exact_mod_cast most⟩
  · rintro ⟨least, most⟩
    exact Int64.toInt_ofInt_of_le (by exact_mod_cast least) (by exact_mod_cast most)

theorem fits_toInt (value : Int64) : Fits value.toInt :=
  (toInt_ofInt_eq_iff value.toInt).mp (by rw [Int64.ofInt_toInt])

namespace Decimal

/-- The number that a decimal is. -/
def rational (number : Decimal) : ℚ := number.coefficient * 10 ^ number.exponent

theorem rational_ofNat (coefficient : ℤ) (n : ℕ) :
    rational ⟨coefficient, .ofNat n⟩ = (coefficient * 10 ^ n : ℤ) := by
  simp [rational]

theorem rational_negSucc_eq_iff {coefficient : ℤ} {n : ℕ} {whole : ℤ} :
    rational ⟨coefficient, .negSucc n⟩ = whole ↔ coefficient = whole * 10 ^ (n + 1) := by
  rw [rational, zpow_negSucc, ← div_eq_mul_inv, div_eq_iff (by positivity)]
  exact_mod_cast Iff.rfl

/-- A number has no more digits than a power of ten that divides it has zeros, unless it is zero. -/
theorem lt_length_digits_of_dvd {n places : ℕ} (present : n ≠ 0) (divides : 10 ^ places ∣ n) :
    places < (digits n).length := by
  by_contra! short
  have below : n < 10 ^ places :=
    (Nat.length_toDigits_le_iff (by decide) ?_).mp short
  · exact absurd (Nat.le_of_dvd (Nat.pos_of_ne_zero present) divides) (not_le.mpr below)
  · exact (List.length_pos_of_ne_nil Nat.toDigits_ne_nil).trans_le short

theorem isInteger_negSucc_iff {coefficient : ℤ} {n : ℕ} :
    isInteger ⟨coefficient, .negSucc n⟩ = true ↔ (10 : ℤ) ^ (n + 1) ∣ coefficient := by
  have sizes : (10 : ℤ) ^ (n + 1) ∣ coefficient ↔ 10 ^ (n + 1) ∣ coefficient.natAbs := by
    rw [← Int.natAbs_dvd_natAbs, Int.natAbs_pow]
    rfl
  rw [sizes]
  change (coefficient == 0 || _ && coefficient.natAbs % 10 ^ (n + 1) == 0) = true ↔ _
  rw [Bool.or_eq_true, Bool.and_eq_true, beq_iff_eq, beq_iff_eq, decide_eq_true_eq,
    ← Nat.dvd_iff_mod_eq_zero]
  constructor
  · rintro (rfl | ⟨_, divides⟩)
    · exact dvd_zero _
    · exact divides
  · intro divides
    refine or_iff_not_imp_left.mpr fun nonzero => ⟨?_, divides⟩
    have longer := lt_length_digits_of_dvd (Int.natAbs_ne_zero.mpr nonzero) divides
    exact (Nat.lt_succ_self n).trans longer

/-- The test for whole numbers is exact. -/
theorem isInteger_iff {number : Decimal} :
    number.isInteger = true ↔ ∃ whole : ℤ, number.rational = whole := by
  obtain ⟨coefficient, n | n⟩ := number
  · exact ⟨fun _ => ⟨_, rational_ofNat coefficient n⟩, fun _ => rfl⟩
  · rw [isInteger_negSucc_iff]
    constructor
    · rintro ⟨whole, rfl⟩
      exact ⟨whole, rational_negSucc_eq_iff.mpr (mul_comm ..)⟩
    · rintro ⟨whole, same⟩
      exact ⟨whole, (rational_negSucc_eq_iff.mp same).trans (mul_comm ..)⟩

/-- A power of ten with 64 zeros has no low bits. -/
theorem ofInt_mul_tenPow {n : ℕ} (long : 64 ≤ n) (coefficient : ℤ) :
    Int64.ofInt (coefficient * 10 ^ n) = 0 := by
  obtain ⟨rest, divides⟩ : (2 : ℤ) ^ 64 ∣ coefficient * 10 ^ n := by
    refine Dvd.dvd.mul_left ?_ coefficient
    exact (pow_dvd_pow 2 long).trans (pow_dvd_pow_of_dvd (by decide) n)
  apply Int64.toInt_inj.mp
  rw [divides, Int64.toInt_ofInt]
  exact Int.bmod_eq_zero_of_dvd ⟨rest, by norm_num⟩

/-- The integer part of a whole number is what its low 64 bits stand for. -/
theorem integerPart_of_rational {number : Decimal} {whole : ℤ} (same : number.rational = whole) :
    number.integerPart = Int64.ofInt whole := by
  obtain ⟨coefficient, n | n⟩ := number
  · rw [rational_ofNat] at same
    obtain rfl : coefficient * 10 ^ n = whole := by exact_mod_cast same
    change (if 64 ≤ n then 0 else Int64.ofInt (coefficient * ((10 ^ n : ℕ) : ℤ))) = _
    rw [Nat.cast_pow]
    split
    next long => exact (ofInt_mul_tenPow long coefficient).symm
    next => rfl
  · obtain rfl := rational_negSucc_eq_iff.mp same
    change (if (digits (whole * 10 ^ (n + 1)).natAbs).length ≤ n then 0 else
      Int64.ofInt (Int.tdiv (whole * 10 ^ (n + 1)) ((10 ^ (n + 1) : ℕ) : ℤ))) = _
    split
    next short =>
      -- A number that is too short for its exponent is zero.
      obtain rfl : whole = 0 := by
        by_contra present
        have divides : 10 ^ (n + 1) ∣ (whole * 10 ^ (n + 1)).natAbs := by
          rw [Int.natAbs_mul, Int.natAbs_pow]
          exact dvd_mul_left ..
        have longer := lt_length_digits_of_dvd
          (Int.natAbs_ne_zero.mpr (mul_ne_zero present (by positivity))) divides
        omega
      rfl
    next => rw [Nat.cast_pow, Nat.cast_ofNat, Int.mul_tdiv_cancel _ (by positivity)]

end Decimal

namespace Digits

/-- The digits of a decimal denote it. -/
theorem rational_toDecimal_ofDecimal (negative : Bool) (coefficient : ℕ) (exponent : ℤ) :
    (toDecimal (ofDecimal negative ⟨coefficient, exponent⟩)).rational =
      if negative then -Decimal.rational ⟨coefficient, exponent⟩
      else Decimal.rational ⟨coefficient, exponent⟩ := by
  have whole := Decimal.dropTrailingZeros_append coefficient
  have length := congrArg List.length whole
  rw [List.length_append, List.length_replicate] at length
  have place : exponent + (Decimal.digits coefficient).length - 1 -
      ((dropTrailingZeros (Decimal.digits coefficient)).length - 1) =
      exponent + Decimal.trailingZeros coefficient := by omega
  have size : (Decimal.digitsValue (dropTrailingZeros (Decimal.digits coefficient)) : ℚ) *
      10 ^ Decimal.trailingZeros coefficient = coefficient := by
    exact_mod_cast Decimal.digitsValue_dropTrailingZeros coefficient
  have value : (Decimal.digitsValue (dropTrailingZeros (Decimal.digits coefficient)) : ℚ) *
      10 ^ (exponent + Decimal.trailingZeros coefficient) = coefficient * 10 ^ exponent := by
    rw [← size, zpow_add₀ (by norm_num), zpow_natCast]
    ring
  unfold toDecimal ofDecimal Decimal.rational
  simp only [Int.natAbs_natCast, place]
  cases negative with
  | false => simpa using value
  | true => simpa using value

end Digits

end StepQuery
