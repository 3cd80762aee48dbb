import Mathlib.Algebra.Order.Field.Power
import Mathlib.Data.Nat.Cast.Field
import Mathlib.Data.Nat.Cast.Order.Field
import StepQuery.Proofs.Number.Whole

/-!
The shortest digits of a double and the number that it is.  They need not be the same: the digits of a
double beyond `2 ^ 53` are filled up with zeros.  Up to there every whole number is a double, so that whole
digits, which read back as the double, are the double itself.
-/

namespace StepQuery

namespace Double

variable {significand coefficient : ℕ} {power exponent : ℤ}

/-- The number that a positive double in its canonical form is. -/
def rational (significand : ℕ) (power : ℤ) : ℚ := significand * 2 ^ power

theorem Canonical.rational_pos (canonical : Canonical significand power) :
    0 < rational significand power :=
  mul_pos (Nat.cast_pos.mpr canonical.positive) (by positivity)

/-- Agreement of a decimal number and a double is equality of the numbers that they are. -/
theorem agrees_iff (least : -1074 ≤ power) :
    Agrees coefficient exponent significand power ↔
      Decimal.rational ⟨coefficient, exponent⟩ = rational significand power := by
  have tens : (10 : ℚ) ^ exponent.toNat = 10 ^ exponent * 10 ^ (-exponent).toNat := by
    rw [← zpow_natCast, ← zpow_natCast, ← zpow_add₀ (by norm_num)]
    congr 1
    omega
  have twos : (2 : ℚ) ^ (power + depth).toNat = 2 ^ power * 2 ^ depth := by
    have total : ((power + depth).toNat : ℤ) = power + depth :=
      Int.toNat_of_nonneg (by rw [depth_eq]; omega)
    rw [← zpow_natCast, ← zpow_natCast, ← zpow_add₀ (by norm_num), total]
  have positive : (0 : ℚ) < 2 ^ depth * 10 ^ (-exponent).toNat := by positivity
  have cast : Agrees coefficient exponent significand power ↔
      (coefficient : ℚ) * 10 ^ exponent.toNat * 2 ^ depth =
        significand * 2 ^ (power + depth).toNat * 10 ^ (-exponent).toNat := by
    unfold Agrees
    exact_mod_cast Iff.rfl
  rw [cast, tens, twos, Decimal.rational, rational]
  constructor
  · intro same
    apply mul_right_cancel₀ positive.ne'
    calc (coefficient : ℚ) * 10 ^ exponent * (2 ^ depth * 10 ^ (-exponent).toNat)
        = coefficient * (10 ^ exponent * 10 ^ (-exponent).toNat) * 2 ^ depth := by ring
      _ = significand * (2 ^ power * 2 ^ depth) * 10 ^ (-exponent).toNat := same
      _ = significand * 2 ^ power * (2 ^ depth * 10 ^ (-exponent).toNat) := by ring
  · intro same
    push_cast at same
    calc (coefficient : ℚ) * (10 ^ exponent * 10 ^ (-exponent).toNat) * 2 ^ depth
        = coefficient * 10 ^ exponent * (2 ^ depth * 10 ^ (-exponent).toNat) := by ring
      _ = significand * 2 ^ power * (2 ^ depth * 10 ^ (-exponent).toNat) := by rw [same]
      _ = significand * (2 ^ power * 2 ^ depth) * 10 ^ (-exponent).toNat := by ring

/-- The whole numbers below `2 ^ 53` and their doubles are doubles. -/
theorem exists_canonical {n shift : ℕ} (positive : 0 < n) (small : n < 2 ^ 53) (few : shift ≤ 1) :
    ∃ significand power, Canonical significand power ∧
      rational significand power = (n * 2 ^ shift : ℕ) := by
  have logarithm : n.log2 < 53 := (Nat.log2_lt positive.ne').mpr small
  obtain ⟨lower, upper⟩ := (Nat.log2_eq_iff positive.ne').mp rfl
  obtain ⟨rest, total⟩ : ∃ rest, n.log2 + rest = 52 := ⟨52 - n.log2, by omega⟩
  refine ⟨n * 2 ^ rest, shift - rest, ⟨by positivity, ?_, by omega, by omega, .inl ?_⟩, ?_⟩
  · calc n * 2 ^ rest < 2 ^ (n.log2 + 1) * 2 ^ rest := by gcongr
      _ = 2 ^ 53 := by rw [← pow_add]; congr 1; omega
  · calc 2 ^ 52 = 2 ^ n.log2 * 2 ^ rest := by rw [← pow_add, total]
      _ ≤ n * 2 ^ rest := by gcongr
  · rw [rational, zpow_sub₀ (by norm_num), zpow_natCast, zpow_natCast]
    push_cast
    field_simp

theorem Canonical.toFloat_injective {other : ℕ} {place : ℤ} (canonical : Canonical significand power)
    (another : Canonical other place)
    (same : canonical.toFloat .positive = another.toFloat .positive) :
    significand = other ∧ power = place := by
  have unpacked := congrArg (fun number => number.toModel.unpack) same
  cases (canonical.unpack_toFloat _).symm.trans (unpacked.trans (another.unpack_toFloat _))
  exact ⟨rfl, rfl⟩

/-- A whole number that is a double is converted to no other double. -/
theorem rational_eq_of_toFloat {n shift : ℕ} (canonical : Canonical significand power)
    (reads : Decimal.toFloat ⟨coefficient, exponent⟩ = canonical.toFloat .positive)
    (whole : Decimal.rational ⟨coefficient, exponent⟩ = (n * 2 ^ shift : ℕ)) (positive : 0 < n)
    (small : n < 2 ^ 53) (few : shift ≤ 1) :
    Decimal.rational ⟨coefficient, exponent⟩ = rational significand power := by
  obtain ⟨other, place, another, value⟩ := exists_canonical positive small few
  have agrees := (agrees_iff another.least).mpr (whole.trans value.symm)
  rw [Decimal.toFloat_of_agrees agrees another] at reads
  obtain ⟨rfl, rfl⟩ := another.toFloat_injective canonical reads
  exact whole.trans value.symm

end Double

namespace Decimal

/-- How many digits a number has. -/
theorem length_digits_bounds {n : ℕ} (positive : 0 < n) :
    10 ^ ((digits n).length - 1) ≤ n ∧ n < 10 ^ (digits n).length := by
  have present : 0 < (digits n).length := List.length_pos_of_ne_nil Nat.toDigits_ne_nil
  refine ⟨?_, (Nat.length_toDigits_le_iff (by decide) present).mp le_rfl⟩
  by_contra! below
  have more : 0 < (digits n).length - 1 := by
    by_contra! single
    rw [Nat.le_zero.mp single, pow_zero] at below
    omega
  have shorter : (digits n).length ≤ _ := (Nat.length_toDigits_le_iff (by decide) more).mpr below
  omega

end Decimal

namespace Digits

variable {numerator denominator : ℕ}

/-- A fraction is not less than the power of ten of its first digit. -/
theorem tenPow_order_le (above : 0 < numerator) (below : 0 < denominator) :
    (10 : ℚ) ^ order numerator denominator ≤ numerator / denominator := by
  have positive : (0 : ℚ) < denominator := Nat.cast_pos.mpr below
  have long : 0 < (Decimal.digits numerator).length := List.length_pos_of_ne_nil Nat.toDigits_ne_nil
  have guessed : (10 : ℚ) ^ (((Decimal.digits numerator).length : ℤ) -
      (Decimal.digits denominator).length - 1) ≤ numerator / denominator := by
    have lower : (10 : ℚ) ^ ((Decimal.digits numerator).length - 1) ≤ numerator := by
      exact_mod_cast (Decimal.length_digits_bounds above).1
    have upper : (denominator : ℚ) ≤ 10 ^ (Decimal.digits denominator).length := by
      exact_mod_cast (Decimal.length_digits_bounds below).2.le
    have place : ((Decimal.digits numerator).length : ℤ) - (Decimal.digits denominator).length - 1 =
        ((Decimal.digits numerator).length - 1 : ℕ) - ((Decimal.digits denominator).length : ℕ) := by
      omega
    rw [place, zpow_sub₀ (by norm_num), zpow_natCast, zpow_natCast]
    gcongr
  unfold order
  generalize ((Decimal.digits numerator).length : ℤ) - (Decimal.digits denominator).length = guess
    at guessed
  cases guess with
  | ofNat n =>
    dsimp only
    split
    next reaches =>
      have reaches : (denominator * 10 ^ n : ℕ) ≤ numerator := of_decide_eq_true reaches
      rw [le_div_iff₀ positive, mul_comm, Int.ofNat_eq_natCast, zpow_natCast]
      exact_mod_cast reaches
    next => exact guessed
  | negSucc n =>
    dsimp only
    split
    next reaches =>
      have reaches : denominator ≤ (numerator * 10 ^ (n + 1) : ℕ) := of_decide_eq_true reaches
      rw [le_div_iff₀ positive, zpow_negSucc, inv_mul_le_iff₀ (by positivity), mul_comm]
      exact_mod_cast reaches
    next => exact guessed

/-- The sides on which a quotient is rounded. -/
theorem mem_sides {top bottom : ℕ} {place : ℤ} {candidate : Decimal} {nearer : Bool}
    (near : candidate ∈ (if top % bottom == 0 then [⟨(top / bottom : ℕ), place⟩]
      else if nearer then [⟨(top / bottom : ℕ), place⟩, ⟨(top / bottom : ℕ) + 1, place⟩]
      else [⟨(top / bottom : ℕ) + 1, place⟩, ⟨(top / bottom : ℕ), place⟩] : List Decimal)) :
    ∃ size : ℕ, candidate = ⟨size, place⟩ ∧ size ≤ top / bottom + 1 ∧
      (bottom ∣ top → size = top / bottom) := by
  split at near
  next => exact ⟨_, List.mem_singleton.mp near, Nat.le_succ _, fun _ => rfl⟩
  next rounded =>
    have apart : ¬bottom ∣ top := fun divides => rounded (by simp [Nat.mod_eq_zero_of_dvd divides])
    have either : candidate = ⟨(top / bottom : ℕ), place⟩ ∨
        candidate = ⟨(top / bottom + 1 : ℕ), place⟩ := by
      split at near <;> simp at near <;> tauto
    rcases either with same | same
    · exact ⟨_, same, Nat.le_succ _, fun divides => absurd divides apart⟩
    · exact ⟨_, same, le_rfl, fun divides => absurd divides apart⟩

/-- A candidate is less than a unit of its last digit above the fraction, and is the fraction itself
if that is whole and the unit is not more than one. -/
theorem rational_of_mem_neighbours {first : ℤ} {count : ℕ} {candidate : Decimal}
    (below : 0 < denominator)
    (near : candidate ∈ neighbours numerator denominator first count) :
    ∃ size : ℕ, candidate = ⟨size, first + 1 - count⟩ ∧
      candidate.rational ≤ numerator / denominator + 10 ^ (first + 1 - count) ∧
      (denominator ∣ numerator → first + 1 - count ≤ 0 →
        candidate.rational = numerator / denominator) := by
  have place : first + 1 - count = -((count : ℤ) - 1 - first) := by ring
  suffices quotient : ∃ top bottom size : ℕ, candidate = ⟨size, first + 1 - count⟩ ∧
      size ≤ top / bottom + 1 ∧ (bottom ∣ top → size = top / bottom) ∧
      (top / bottom : ℚ) * 10 ^ (first + 1 - count) = numerator / denominator ∧
      (denominator ∣ numerator → first + 1 - count ≤ 0 → bottom ∣ top) by
    obtain ⟨top, bottom, size, rfl, bound, exact, value, divisible⟩ := quotient
    refine ⟨size, rfl, ?_, fun divides high => ?_⟩
    · have rounded : (size : ℚ) ≤ top / bottom + 1 :=
        (Nat.cast_le.mpr bound).trans (by push_cast; gcongr; exact Nat.cast_div_le)
      calc Decimal.rational ⟨size, first + 1 - count⟩
          ≤ (top / bottom + 1) * 10 ^ (first + 1 - count) := by
            rw [Decimal.rational, Int.cast_natCast]
            gcongr
        _ = numerator / denominator + 10 ^ (first + 1 - count) := by rw [add_mul, value, one_mul]
    · rw [Decimal.rational, exact (divisible divides high), Int.cast_natCast,
        Nat.cast_div_charZero (divisible divides high), value]
  have positive : (denominator : ℚ) ≠ 0 := Nat.cast_ne_zero.mpr below.ne'
  unfold neighbours at near
  rw [place]
  generalize (count : ℤ) - 1 - first = shift at near ⊢
  cases shift with
  | ofNat n =>
    obtain ⟨size, same, bound, exact⟩ := mem_sides near
    refine ⟨numerator * 10 ^ n, denominator, size, same, bound, exact, ?_,
      fun divides _ => divides.mul_right _⟩
    rw [zpow_neg, Int.ofNat_eq_natCast, zpow_natCast]
    push_cast
    field_simp
  | negSucc n =>
    obtain ⟨size, same, bound, exact⟩ := mem_sides near
    refine ⟨numerator, denominator * 10 ^ (n + 1), size, same, bound, exact, ?_, fun _ high => ?_⟩
    · rw [Int.neg_negSucc, zpow_natCast]
      push_cast
      field_simp
    · omega

section Approximation

open Double

variable {significand coefficient : ℕ} {power exponent : ℤ}

theorem rational_eq_div (significand : ℕ) (power : ℤ) :
    rational significand power =
      (significand * 2 ^ power.toNat : ℕ) / (2 ^ (-power).toNat : ℕ) := by
  have split : power = power.toNat - (-power).toNat := by omega
  nth_rewrite 1 [split]
  rw [rational, zpow_sub₀ (by norm_num), zpow_natCast, zpow_natCast]
  push_cast
  exact (mul_div_assoc ..).symm

/-- A double that is not whole is less than `2 ^ 52`. -/
theorem rational_lt_of_not_dvd (canonical : Canonical significand power)
    (broken : ¬2 ^ (-power).toNat ∣ significand * 2 ^ power.toNat) :
    rational significand power < 2 ^ 52 := by
  have negative : power ≤ -1 := by
    by_contra! high
    have one : 2 ^ (-power).toNat = 1 := by
      rw [Int.toNat_of_nonpos (by omega), pow_zero]
    exact broken (one ▸ one_dvd _)
  calc rational significand power
      ≤ significand * 2 ^ (-1 : ℤ) := by
        rw [rational]
        gcongr
        norm_num
    _ < 2 ^ 53 * 2 ^ (-1 : ℤ) := by
        gcongr
        exact_mod_cast canonical.small
    _ = 2 ^ 52 := by norm_num

/-- What the digits of a double are taken from is at most twice as large. -/
theorem Approximates.rational_le {number : Decimal} (canonical : Canonical significand power)
    (approximates : Approximates significand power number) :
    number.rational ≤ 2 * rational significand power := by
  have positive := canonical.rational_pos
  cases approximates with
  | exact agrees =>
    rw [(agrees_iff canonical.least).mp agrees]
    linarith
  | @near _ tried present member =>
    have below : 0 < 2 ^ (-power).toNat := by positivity
    have first := tenPow_order_le (Nat.mul_pos canonical.positive (Nat.two_pow_pos power.toNat)) below
    obtain ⟨_, _, bound, _⟩ := rational_of_mem_neighbours below member
    rw [← rational_eq_div] at first bound
    have unit : (10 : ℚ) ^ (order (significand * 2 ^ power.toNat) (2 ^ (-power).toNat) + 1 - tried) ≤
        10 ^ order (significand * 2 ^ power.toNat) (2 ^ (-power).toNat) :=
      zpow_le_zpow_right₀ (by norm_num) (by omega)
    linarith

/-- Up to `2 ^ 53`, if the double or what its digits are taken from is whole, the two are equal. -/
theorem Approximates.rational_eq (canonical : Canonical significand power)
    (approximates : Approximates significand power ⟨coefficient, exponent⟩)
    (nonzero : 0 < coefficient)
    (reads : Decimal.toFloat ⟨coefficient, exponent⟩ = canonical.toFloat .positive)
    (small : rational significand power ≤ 2 ^ 53)
    (whole : (∃ n : ℕ, Decimal.rational ⟨coefficient, exponent⟩ = n) ∨
      ∃ n : ℕ, rational significand power = n) :
    Decimal.rational ⟨coefficient, exponent⟩ = rational significand power := by
  have near := approximates.rational_le canonical
  cases approximates with
  | exact agrees => exact (agrees_iff canonical.least).mp agrees
  | @near _ tried present member =>
    obtain ⟨size, same, _, exact⟩ := rational_of_mem_neighbours (by positivity) member
    obtain ⟨rfl, place⟩ : coefficient = size ∧ exponent = _ := by simpa using same
    rw [← rational_eq_div, ← place] at exact
    by_cases divides : 2 ^ (-power).toNat ∣ significand * 2 ^ power.toNat
    · by_cases fine : exponent ≤ 0
      · exact exact divides fine
      · -- Multiples of ten are even, which makes them doubles up to `2 ^ 54`.
        obtain ⟨places, rfl⟩ : ∃ places : ℕ, exponent = (places + 1 : ℕ) :=
          ⟨(exponent - 1).toNat, by omega⟩
        have even : Decimal.rational ⟨coefficient, (places + 1 : ℕ)⟩ =
            (5 * (coefficient * 10 ^ places) * 2 ^ 1 : ℕ) := by
          rw [Decimal.rational, zpow_natCast]
          push_cast
          ring
        have half : 5 * (coefficient * 10 ^ places) ≤ 2 ^ 53 := by
          have doubled : ((5 * (coefficient * 10 ^ places) * 2 ^ 1 : ℕ) : ℚ) ≤ (2 ^ 54 : ℕ) := by
            calc ((5 * (coefficient * 10 ^ places) * 2 ^ 1 : ℕ) : ℚ)
                = Decimal.rational ⟨coefficient, (places + 1 : ℕ)⟩ := even.symm
              _ ≤ 2 * rational significand power := near
              _ ≤ 2 * 2 ^ 53 := by gcongr
              _ = (2 ^ 54 : ℕ) := by norm_num
          have range := Nat.cast_le.mp doubled
          omega
        exact rational_eq_of_toFloat canonical reads even (by positivity) (by omega) le_rfl
    · have less := rational_lt_of_not_dvd canonical divides
      obtain ⟨n, whole⟩ : ∃ n : ℕ, Decimal.rational ⟨coefficient, exponent⟩ = n := by
        refine whole.resolve_right ?_
        rintro ⟨n, whole⟩
        rw [rational_eq_div, div_eq_iff (by positivity)] at whole
        have product : significand * 2 ^ power.toNat = n * 2 ^ (-power).toNat := by
          exact_mod_cast whole
        exact divides ⟨n, product.trans (mul_comm ..)⟩
      have positive : 0 < n := by
        have present : 0 < Decimal.rational ⟨coefficient, exponent⟩ :=
          mul_pos (Int.cast_pos.mpr (Int.natCast_pos.mpr nonzero)) (by positivity)
        rw [whole] at present
        exact_mod_cast present
      have range : n < 2 ^ 53 := by
        have bounded : (n : ℚ) < (2 ^ 53 : ℕ) := by
          rw [← whole]
          push_cast
          linarith
        exact Nat.cast_lt.mp bounded
      exact rational_eq_of_toFloat canonical reads (by rw [whole, pow_zero, Nat.mul_one]) positive range
        zero_le_one

end Approximation

end Digits

end StepQuery
