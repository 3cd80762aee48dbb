import Mathlib.Tactic.Positivity
import Mathlib.Tactic.Ring
import StepQuery.Number.Decimal

/-!
Doubles as significands with powers of two: how their bits are laid out, and that the conversion of a
decimal number that is a double keeps it as it is.
-/

namespace StepQuery.Double

open Float.Model
open Float.Model.UnpackedFloat

/-- `significand * 2 ^ power` is a positive double in its one canonical form. -/
structure Canonical (significand : Nat) (power : Int) : Prop where
  positive : 0 < significand
  small : significand < 2 ^ 53
  least : -1074 ≤ power
  most : power ≤ 971
  full : 2 ^ 52 ≤ significand ∨ power = -1074

/-! ### Rounding an exact value -/

theorem targetExponent_mono {first second : Int} (ordered : first ≤ second) :
    Format.binary64.targetExponent first ≤ Format.binary64.targetExponent second := by
  unfold Format.targetExponent
  omega

theorem targetExponent_eq (total : Int) :
    Format.binary64.targetExponent total = max (total - 53) (-1074) := rfl

theorem totalExponent_mul_twoPow {mantissa : Nat} (positive : 0 < mantissa) (shift : Nat)
    (exponent : Int) :
    totalExponent (mantissa * 2 ^ shift) (exponent - shift) = totalExponent mantissa exponent := by
  have logarithm : (mantissa * 2 ^ shift).log2 = mantissa.log2 + shift := by
    have nonzero : mantissa * 2 ^ shift ≠ 0 := (Nat.mul_pos positive (Nat.two_pow_pos shift)).ne'
    rw [Nat.log2_eq_iff nonzero]
    have bounds := (Nat.log2_eq_iff positive.ne').mp rfl
    constructor
    · calc 2 ^ (mantissa.log2 + shift) = 2 ^ mantissa.log2 * 2 ^ shift := pow_add ..
        _ ≤ mantissa * 2 ^ shift := Nat.mul_le_mul_right _ bounds.1
    · calc mantissa * 2 ^ shift < 2 ^ (mantissa.log2 + 1) * 2 ^ shift :=
            Nat.mul_lt_mul_of_pos_right bounds.2 (Nat.two_pow_pos shift)
        _ = 2 ^ (mantissa.log2 + shift + 1) := by rw [← pow_add]; congr 1; omega
  unfold totalExponent
  rw [logarithm]
  omega

namespace Canonical

variable {significand : Nat} {power : Int}

theorem targetExponent_totalExponent (canonical : Canonical significand power) :
    Format.binary64.targetExponent (totalExponent significand power) = power := by
  have upper : significand.log2 < 53 := (Nat.log2_lt canonical.positive.ne').mpr canonical.small
  rw [targetExponent_eq]
  unfold totalExponent
  rcases canonical.full with full | least
  · have lower : 52 ≤ significand.log2 := (Nat.le_log2 canonical.positive.ne').mpr full
    have range := canonical.least
    omega
  · omega

end Canonical

/-- Shifting out zeros leaves no trace in the residual bits. -/
theorem repeat_shiftRightOne (mantissa shift : Nat) :
    shift.repeat ExtendedMantissa.shiftRightOne ⟨mantissa * 2 ^ shift, false, false⟩ =
      ⟨mantissa, false, false⟩ := by
  induction shift generalizing mantissa with
  | zero => simp [Nat.repeat]
  | succ shift inductionHypothesis =>
    have doubled : mantissa * 2 ^ (shift + 1) = mantissa * 2 * 2 ^ shift := by ring
    rw [Nat.repeat, doubled, inductionHypothesis (mantissa * 2)]
    simp [ExtendedMantissa.shiftRightOne]

theorem shiftToTargetExponent_exact {significand : Nat} {power : Int}
    (canonical : Canonical significand power) (shift : Nat) :
    shiftToTargetExponent Format.binary64 (significand * 2 ^ shift) (power - shift) .exact =
      (⟨significand, false, false⟩, power) := by
  have amount : (power - (power - shift)).toNat = shift := by omega
  unfold shiftToTargetExponent shiftToExponent
  simp only [totalExponent_mul_twoPow canonical.positive,
    canonical.targetExponent_totalExponent, amount]
  refine Prod.ext (repeat_shiftRightOne significand shift) ?_
  change power - shift + shift = power
  omega

theorem roundWithAccuracy_exact {significand : Nat} {power : Int}
    (canonical : Canonical significand power) (sign : Sign) (shift : Nat) :
    roundWithAccuracy Format.binary64 sign (significand * 2 ^ shift) (power - shift) .exact =
      .finite sign significand power canonical.positive := by
  have unshifted := shiftToTargetExponent_exact canonical 0
  simp only [pow_zero, Nat.mul_one, Nat.cast_zero, Int.sub_zero] at unshifted
  unfold roundWithAccuracy
  rw [shiftToTargetExponent_exact canonical]
  dsimp only [ExtendedMantissa.roundedMantissa, ExtendedMantissa.accuracy,
    Accuracy.roundToNearestEven]
  rw [unshifted]
  exact dif_neg canonical.positive.ne'

/-! ### Decimal numbers that are doubles -/

/-- No bit of a double stands for less than `2 ^ -depth`. -/
def depth : Nat := 1074

theorem depth_eq : depth = 1074 := rfl

/-- `coefficient * 10 ^ exponent` and `significand * 2 ^ power` are one number.  Both sides are
multiplied by powers that make them whole. -/
def Agrees (coefficient : Nat) (exponent : Int) (significand : Nat) (power : Int) : Prop :=
  coefficient * 10 ^ exponent.toNat * 2 ^ depth =
    significand * 2 ^ (power + depth).toNat * 10 ^ (-exponent).toNat

namespace Agrees

variable {coefficient significand : Nat} {exponent power : Int}

theorem coefficient_pos (agrees : Agrees coefficient exponent significand power)
    (positive : 0 < significand) : 0 < coefficient := by
  rcases Nat.eq_zero_or_pos coefficient with rfl | found
  · have product : 0 < significand * 2 ^ (power + depth).toNat * 10 ^ (-exponent).toNat := by
      positivity
    unfold Agrees at agrees
    omega
  · exact found

/-- Zeros may move from the coefficient to the exponent. -/
theorem of_mul_tenPow {zeros : Nat}
    (agrees : Agrees (coefficient * 10 ^ zeros) exponent significand power) :
    Agrees coefficient (exponent + zeros) significand power := by
  have balance : (exponent + zeros).toNat + (-exponent).toNat =
      zeros + exponent.toNat + (-(exponent + zeros)).toNat := by omega
  unfold Agrees at *
  apply Nat.eq_of_mul_eq_mul_right (Nat.pow_pos (by decide) : 0 < 10 ^ (-exponent).toNat)
  calc coefficient * 10 ^ (exponent + zeros).toNat * 2 ^ depth * 10 ^ (-exponent).toNat
      = coefficient * 10 ^ ((exponent + zeros).toNat + (-exponent).toNat) * 2 ^ depth := by
        rw [pow_add]; ring
    _ = coefficient * 10 ^ zeros * 10 ^ exponent.toNat * 2 ^ depth *
          10 ^ (-(exponent + zeros)).toNat := by
        rw [balance, pow_add, pow_add]; ring
    _ = significand * 2 ^ (power + depth).toNat * 10 ^ (-(exponent + zeros)).toNat *
          10 ^ (-exponent).toNat := by
        rw [agrees]; ring

/-- An exponent that is not negative leaves nothing to multiply the other side with. -/
theorem whole (agrees : Agrees coefficient exponent significand power)
    (nonnegative : 0 ≤ exponent) :
    coefficient * 10 ^ exponent.toNat * 2 ^ depth = significand * 2 ^ (power + depth).toNat := by
  have none : (-exponent).toNat = 0 := by omega
  simpa [Agrees, none] using agrees

theorem fractional (agrees : Agrees coefficient exponent significand power)
    (negative : exponent ≤ 0) :
    coefficient * 2 ^ depth =
      significand * 2 ^ (power + depth).toNat * 10 ^ (-exponent).toNat := by
  have none : exponent.toNat = 0 := by omega
  simpa [Agrees, none] using agrees

theorem power_lt (agrees : Agrees coefficient exponent significand power)
    (canonical : Canonical significand power) (nonnegative : 0 ≤ exponent) :
    2 ^ (exponent.toNat + depth) < 2 ^ (53 + (power + depth).toNat) := by
  calc 2 ^ (exponent.toNat + depth) = 2 ^ exponent.toNat * 2 ^ depth := pow_add ..
    _ ≤ coefficient * 10 ^ exponent.toNat * 2 ^ depth := by
        apply Nat.mul_le_mul_right
        calc 2 ^ exponent.toNat ≤ 10 ^ exponent.toNat := Nat.pow_le_pow_left (by decide) _
          _ ≤ coefficient * 10 ^ exponent.toNat :=
              Nat.le_mul_of_pos_left _ (agrees.coefficient_pos canonical.positive)
    _ = significand * 2 ^ (power + depth).toNat := agrees.whole nonnegative
    _ < 2 ^ 53 * 2 ^ (power + depth).toNat :=
        Nat.mul_lt_mul_of_pos_right canonical.small (Nat.two_pow_pos _)
    _ = 2 ^ (53 + (power + depth).toNat) := (pow_add ..).symm

/-- Neither bound at which the conversion gives up is reached. -/
theorem exponent_le (agrees : Agrees coefficient exponent significand power)
    (canonical : Canonical significand power) : exponent ≤ 2048 := by
  rcases lt_or_ge exponent 0 with negative | nonnegative
  · omega
  · have bound := (Nat.pow_lt_pow_iff_right (by decide)).mp
      (agrees.power_lt canonical nonnegative)
    have range := canonical.most
    omega

theorem le_exponent (agrees : Agrees coefficient exponent significand power)
    (canonical : Canonical significand power) : -(2048 + (coefficient.log2 : Int)) ≤ exponent := by
  rcases le_or_gt 0 exponent with nonnegative | negative
  · omega
  · have positive := agrees.coefficient_pos canonical.positive
    have reached : 2 ^ (-exponent).toNat < 2 ^ (coefficient.log2 + 1 + depth) := by
      calc 2 ^ (-exponent).toNat ≤ 10 ^ (-exponent).toNat := Nat.pow_le_pow_left (by decide) _
        _ ≤ significand * 2 ^ (power + depth).toNat * 10 ^ (-exponent).toNat :=
            Nat.le_mul_of_pos_left _ (Nat.mul_pos canonical.positive (Nat.two_pow_pos _))
        _ = coefficient * 2 ^ depth := (agrees.fractional negative.le).symm
        _ < 2 ^ (coefficient.log2 + 1) * 2 ^ depth :=
            Nat.mul_lt_mul_of_pos_right ((Nat.log2_eq_iff positive.ne').mp rfl).2
              (Nat.two_pow_pos _)
        _ = 2 ^ (coefficient.log2 + 1 + depth) := (pow_add ..).symm
    have bound := (Nat.pow_lt_pow_iff_right (by decide)).mp reached
    rw [depth_eq] at bound
    omega

/-- A product of whole numbers has its bits from `2 ^ -53` on. -/
theorem product_eq (agrees : Agrees coefficient exponent significand power)
    (canonical : Canonical significand power) (nonnegative : 0 ≤ exponent) :
    ∃ shift : Nat, coefficient <<< 53 * 10 ^ exponent.toNat = significand * 2 ^ shift ∧
      (-53 : Int) = power - shift := by
  have bound := (Nat.pow_lt_pow_iff_right (by decide)).mp (agrees.power_lt canonical nonnegative)
  rw [depth_eq] at bound
  refine ⟨(power + 53).toNat, ?_, by omega⟩
  have split : (power + depth).toNat = (power + 53).toNat + (depth - 53) := by
    rw [depth_eq]
    omega
  have rest : 53 + (depth - 53) = depth := rfl
  apply Nat.eq_of_mul_eq_mul_right (Nat.two_pow_pos (depth - 53))
  calc coefficient <<< 53 * 10 ^ exponent.toNat * 2 ^ (depth - 53)
      = coefficient * 10 ^ exponent.toNat * 2 ^ (53 + (depth - 53)) := by
        rw [Nat.shiftLeft_eq, pow_add]; ring
    _ = significand * 2 ^ (power + depth).toNat := by rw [rest, agrees.whole nonnegative]
    _ = significand * 2 ^ (power + 53).toNat * 2 ^ (depth - 53) := by
        rw [split, pow_add]; ring

/-- The exponent at which a quotient is computed leaves room for every bit of the result. -/
theorem quotientExponent_le (agrees : Agrees coefficient exponent significand power)
    (canonical : Canonical significand power) (negative : exponent ≤ 0) :
    Format.binary64.targetExponent
      (totalExponent coefficient 0 - totalExponent (10 ^ (-exponent).toNat) 0) ≤ power := by
  have positive := agrees.coefficient_pos canonical.positive
  have tens : 0 < 10 ^ (-exponent).toNat := Nat.pow_pos (by decide)
  have chain : 2 ^ (coefficient.log2 + depth) <
      2 ^ (significand.log2 + 1 + (power + depth).toNat + ((10 ^ (-exponent).toNat).log2 + 1)) := by
    calc 2 ^ (coefficient.log2 + depth) = 2 ^ coefficient.log2 * 2 ^ depth := pow_add ..
      _ ≤ coefficient * 2 ^ depth :=
          Nat.mul_le_mul_right _ ((Nat.log2_eq_iff positive.ne').mp rfl).1
      _ = significand * 2 ^ (power + depth).toNat * 10 ^ (-exponent).toNat :=
          agrees.fractional negative
      _ < 2 ^ (significand.log2 + 1) * 2 ^ (power + depth).toNat *
            2 ^ ((10 ^ (-exponent).toNat).log2 + 1) := by
          apply Nat.mul_lt_mul_of_lt_of_le
          · exact Nat.mul_lt_mul_of_pos_right
              ((Nat.log2_eq_iff canonical.positive.ne').mp rfl).2 (Nat.two_pow_pos _)
          · exact ((Nat.log2_eq_iff tens.ne').mp rfl).2.le
          · exact Nat.two_pow_pos _
      _ = _ := by rw [← pow_add, ← pow_add]
  have bound := (Nat.pow_lt_pow_iff_right (by decide)).mp chain
  have range := canonical.least
  rw [depth_eq] at bound
  calc Format.binary64.targetExponent
        (totalExponent coefficient 0 - totalExponent (10 ^ (-exponent).toNat) 0)
      ≤ Format.binary64.targetExponent (totalExponent significand power) := by
        apply targetExponent_mono
        unfold totalExponent
        omega
    _ = power := canonical.targetExponent_totalExponent

theorem divCore_eq (agrees : Agrees coefficient exponent significand power)
    (canonical : Canonical significand power) (negative : exponent ≤ 0) :
    ∃ shift : Nat, divCore Format.binary64 coefficient 0 (10 ^ (-exponent).toNat) 0 =
      (significand * 2 ^ shift, power - shift, .exact) := by
  let target := min (0 - 0) (Format.binary64.targetExponent
    (totalExponent coefficient 0 - totalExponent (10 ^ (-exponent).toNat) 0))
  have below : target ≤ power :=
    (min_le_right _ _).trans (agrees.quotientExponent_le canonical negative)
  have nonpositive : target ≤ 0 := min_le_left _ _
  have dividend : coefficient <<< (0 - 0 - target).toNat =
      significand * 2 ^ (power - target).toNat * 10 ^ (-exponent).toNat := by
    have balance : (power + depth).toNat + (0 - 0 - target).toNat =
        (power - target).toNat + depth := by
      have range := canonical.least
      rw [depth_eq]
      omega
    apply Nat.eq_of_mul_eq_mul_right (Nat.two_pow_pos depth)
    calc coefficient <<< (0 - 0 - target).toNat * 2 ^ depth
        = coefficient * 2 ^ depth * 2 ^ (0 - 0 - target).toNat := by
          rw [Nat.shiftLeft_eq]; ring
      _ = significand * 2 ^ ((power + depth).toNat + (0 - 0 - target).toNat) *
            10 ^ (-exponent).toNat := by
          rw [agrees.fractional negative, pow_add]; ring
      _ = significand * 2 ^ (power - target).toNat * 10 ^ (-exponent).toNat * 2 ^ depth := by
          rw [balance, pow_add]; ring
  have tens : 0 < 10 ^ (-exponent).toNat := Nat.pow_pos (by decide)
  have place : target = power - (power - target).toNat := by omega
  refine ⟨(power - target).toNat, ?_⟩
  change (coefficient <<< (0 - 0 - target).toNat / 10 ^ (-exponent).toNat, target,
    accuracyOfFraction (coefficient <<< (0 - 0 - target).toNat % 10 ^ (-exponent).toNat)
      (10 ^ (-exponent).toNat)) = _
  rw [dividend, Nat.mul_div_cancel _ tens, Nat.mul_mod_left, ← place]
  rfl

end Agrees

/-- The conversion of a decimal number that is a double keeps it as it is. -/
theorem ofScientific_exact {coefficient significand : Nat} {exponent power : Int}
    (agrees : Agrees coefficient exponent significand power)
    (canonical : Canonical significand power) :
    UnpackedFloat.ofScientific Format.binary64 coefficient exponent =
      .finite .positive significand power canonical.positive := by
  have nonzero := (agrees.coefficient_pos canonical.positive).ne'
  have upper := agrees.exponent_le canonical
  have lower := agrees.le_exponent canonical
  have upper' : ¬ exponent > 2 ^ Format.binary64.exponentBits := by
    change ¬ exponent > 2048
    omega
  have lower' : ¬ exponent < -((2 ^ Format.binary64.exponentBits : Int) + coefficient.log2) := by
    change ¬ exponent < -((2048 : Int) + coefficient.log2)
    omega
  unfold UnpackedFloat.ofScientific
  rw [dif_neg nonzero, if_neg upper', if_neg lower']
  by_cases nonnegative : 0 ≤ exponent
  · obtain ⟨shift, product, place⟩ := agrees.product_eq canonical nonnegative
    rw [if_pos nonnegative]
    change roundWithAccuracy Format.binary64 (.positive * .positive)
      (coefficient <<< 53 * 10 ^ exponent.toNat) (-53 + 0) .exact = _
    rw [product, Int.add_zero, place]
    exact roundWithAccuracy_exact canonical .positive shift
  · obtain ⟨shift, quotient⟩ := agrees.divCore_eq canonical (by omega)
    rw [if_neg nonnegative]
    unfold UnpackedFloat.div
    dsimp only
    rw [quotient]
    exact roundWithAccuracy_exact canonical .positive shift

/-! ### The bits of a double -/

theorem toNat_packComponents (sign : Sign) (exponent : BitVec 11) (mantissa : BitVec 52) :
    (packComponents Format.binary64 sign exponent mantissa).toNat =
      sign.toBitVec.toNat * 2 ^ 63 + exponent.toNat * 2 ^ 52 + mantissa.toNat := by
  unfold packComponents
  rw [BitVec.toNat_append, ← Nat.shiftLeft_add_eq_or_of_lt mantissa.isLt, BitVec.toNat_append,
    ← Nat.shiftLeft_add_eq_or_of_lt exponent.isLt, Nat.shiftLeft_eq, Nat.shiftLeft_eq]
  ring

theorem unpackSign_packComponents (sign : Sign) (exponent : BitVec 11) (mantissa : BitVec 52) :
    Sign.ofBitVec (unpackSign (packComponents Format.binary64 sign exponent mantissa)) = sign := by
  have bit : unpackSign (packComponents Format.binary64 sign exponent mantissa) =
      sign.toBitVec := by
    apply BitVec.eq_of_toNat_eq
    unfold unpackSign
    rw [BitVec.toNat_cast, BitVec.extractLsb_toNat, toNat_packComponents, Nat.shiftRight_eq_div_pow]
    have first := exponent.isLt
    have second := mantissa.isLt
    have third := sign.toBitVec.isLt
    change (sign.toBitVec.toNat * 2 ^ 63 + exponent.toNat * 2 ^ 52 + mantissa.toNat) / 2 ^ 63 %
      2 ^ 1 = sign.toBitVec.toNat
    omega
  rw [bit]
  cases sign <;> rfl

section Unpacking

variable {exponent : BitVec 11} {mantissa : BitVec 52} {significand : Nat} {power : Int}

theorem unpack_normal (sign : Sign) (positive : 0 < significand) (notAll : exponent ≠ -1#11)
    (notZero : exponent ≠ 0#11) (whole : (1#1 ++ mantissa).toNat = significand)
    (biased : (exponent.toNat : Int) - 1075 = power) :
    UnpackedFloat.unpack Format.binary64 (packComponents Format.binary64 sign exponent mantissa) =
      .finite sign significand power positive := by
  have signField := unpackSign_packComponents sign exponent mantissa
  have exponentField : unpackExponent (packComponents Format.binary64 sign exponent mantissa) =
      exponent := unpackExponent_packComponents
  have mantissaField : unpackMantissa (packComponents Format.binary64 sign exponent mantissa) =
      mantissa := unpackMantissa_packComponents
  generalize packComponents Format.binary64 sign exponent mantissa = packed at *
  subst signField exponentField mantissaField whole biased
  unfold UnpackedFloat.unpack
  exact (if_neg notAll).trans (if_neg notZero)

theorem unpack_subnormal (sign : Sign) (positive : 0 < significand)
    (whole : mantissa.toNat = significand) :
    UnpackedFloat.unpack Format.binary64 (packComponents Format.binary64 sign 0#11 mantissa) =
      .finite sign significand (-1074) positive := by
  have nonzero : mantissa ≠ 0#52 := by
    rintro rfl
    exact positive.ne whole
  have signField := unpackSign_packComponents sign 0#11 mantissa
  have exponentField : unpackExponent (packComponents Format.binary64 sign 0#11 mantissa) =
      0#11 := unpackExponent_packComponents
  have mantissaField : unpackMantissa (packComponents Format.binary64 sign 0#11 mantissa) =
      mantissa := unpackMantissa_packComponents
  generalize packComponents Format.binary64 sign 0#11 mantissa = packed at *
  subst signField mantissaField whole
  unfold UnpackedFloat.unpack
  rw [exponentField]
  exact dif_neg nonzero

end Unpacking

namespace Canonical

variable {significand : Nat} {power : Int}

/-- The exponent field and the mantissa field of a double. -/
theorem pack_eq (canonical : Canonical significand power) (sign : Sign) :
    UnpackedFloat.pack Format.binary64 (.finite sign significand power canonical.positive) =
      packComponents Format.binary64 sign
        (BitVec.ofNat 11 (if 2 ^ 52 ≤ significand then (power + 1075).toNat else 0))
        (BitVec.ofNat 52 significand) := by
  have range := canonical.most
  have upper : significand.log2 < 53 := (Nat.log2_lt canonical.positive.ne').mpr canonical.small
  have below : ¬ 2 ^ 11 ≤ (power + 1023 + 52).toNat + 1 := by omega
  have biased : (power + 1023 + 52).toNat = (power + 1075).toNat := by omega
  unfold UnpackedFloat.pack
  change (if 2 ^ 11 ≤ (power + 1023 + 52).toNat + 1 then _ else
    if significand.log2 + 1 = 53 then _ else _) = _
  rw [if_neg below]
  by_cases full : 2 ^ 52 ≤ significand
  · have lower : 52 ≤ significand.log2 := (Nat.le_log2 canonical.positive.ne').mpr full
    rw [if_pos (by omega), if_pos full, ← biased]
    rfl
  · have lower : ¬ 52 ≤ significand.log2 :=
      fun large => full ((Nat.le_log2 canonical.positive.ne').mp large)
    rw [if_neg (by omega), if_neg full]

theorem toNat_pack (canonical : Canonical significand power) (sign : Sign) :
    (UnpackedFloat.pack Format.binary64
      (.finite sign significand power canonical.positive)).toNat =
      sign.toBitVec.toNat * 2 ^ 63 + ((power + depth).toNat * 2 ^ 52 + significand) := by
  rw [canonical.pack_eq, toNat_packComponents, BitVec.toNat_ofNat, BitVec.toNat_ofNat, depth_eq]
  obtain ⟨_, small, least, most, full⟩ := canonical
  split <;> omega

theorem unpack_pack (canonical : Canonical significand power) (sign : Sign) :
    UnpackedFloat.unpack Format.binary64 (UnpackedFloat.pack Format.binary64
      (.finite sign significand power canonical.positive)) =
      .finite sign significand power canonical.positive := by
  rw [canonical.pack_eq]
  obtain ⟨positive, small, least, most, full⟩ := canonical
  by_cases normal : 2 ^ 52 ≤ significand
  · have field : (BitVec.ofNat 11 (power + 1075).toNat).toNat = (power + 1075).toNat := by
      rw [BitVec.toNat_ofNat]
      omega
    rw [if_pos normal]
    apply unpack_normal
    · intro same
      have all : (-1#11).toNat = 2047 := rfl
      rw [same, all] at field
      omega
    · intro same
      have zero : (0#11).toNat = 0 := rfl
      rw [same, zero] at field
      omega
    · rw [BitVec.toNat_append, ← Nat.shiftLeft_add_eq_or_of_lt (BitVec.ofNat 52 significand).isLt,
        BitVec.toNat_ofNat, Nat.shiftLeft_eq, BitVec.toNat_ofNat]
      omega
    · omega
  · rw [if_neg normal]
    obtain rfl : power = -1074 := by omega
    apply unpack_subnormal
    rw [BitVec.toNat_ofNat]
    omega

end Canonical

end StepQuery.Double
