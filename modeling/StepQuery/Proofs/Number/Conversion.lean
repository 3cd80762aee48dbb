import StepQuery.Number.Shortest
import StepQuery.Proofs.Number.Double

/-!
The digits of a double read back as it.  The search for the fewest digits only accepts candidates
that read back; what remains to be seen is that the exact value, which it falls back on, does so too,
and that moving zeros between the coefficient and the exponent of a decimal does not change what it
is converted to.
-/

namespace StepQuery

namespace Decimal

theorem digitsValue_eq (text : List Char) : digitsValue text = Nat.ofDigitChars 10 text 0 := rfl

@[simp]
theorem digitsValue_digits (n : Nat) : digitsValue (digits n) = n := Nat.ofDigitChars_ten_toDigits

theorem digitsValue_append_zeros (text : List Char) (zeros : Nat) :
    digitsValue (text ++ List.replicate zeros '0') = digitsValue text * 10 ^ zeros := by
  rw [digitsValue_eq, Nat.ofDigitChars_append, Nat.ofDigitChars_replicate_zero, Nat.mul_comm]
  rfl

theorem digits_mul_ten {n : Nat} (positive : 0 < n) : digits (n * 10) = digits n ++ ['0'] := by
  unfold digits
  rw [← Nat.toDigits_zero 10, Nat.toDigits_append_toDigits (by decide) positive (by decide),
    Nat.mul_comm, Nat.add_zero]

theorem trailingZeros_mul_tenPow {n : Nat} (positive : 0 < n) (zeros : Nat) :
    trailingZeros (n * 10 ^ zeros) = trailingZeros n + zeros := by
  induction zeros with
  | zero => simp
  | succ zeros inductionHypothesis =>
    have product : 0 < n * 10 ^ zeros := Nat.mul_pos positive (Nat.pow_pos (by decide))
    have step : trailingZeros (n * 10 ^ zeros * 10) = trailingZeros (n * 10 ^ zeros) + 1 := by
      unfold trailingZeros
      rw [digits_mul_ten product]
      simp
    rw [pow_succ, ← Nat.mul_assoc, step, inductionHypothesis, Nat.add_assoc]

/-- Digits end in as many zeros as can be dropped. -/
theorem dropTrailingZeros_append (n : Nat) :
    Digits.dropTrailingZeros (digits n) ++ List.replicate (trailingZeros n) '0' = digits n := by
  have zeros : (digits n).reverse.takeWhile (· == '0') =
      List.replicate (trailingZeros n) '0' := by
    apply List.eq_replicate_iff.mpr
    refine ⟨rfl, ?_⟩
    intro digit within
    simpa using List.all_eq_true.mp List.all_takeWhile digit within
  have parts := List.takeWhile_append_dropWhile (p := (· == '0')) (l := (digits n).reverse)
  rw [zeros] at parts
  have reversed := congrArg List.reverse parts
  simpa [Digits.dropTrailingZeros] using reversed

theorem digitsValue_dropTrailingZeros (n : Nat) :
    digitsValue (Digits.dropTrailingZeros (digits n)) * 10 ^ trailingZeros n = n := by
  rw [← digitsValue_append_zeros, dropTrailingZeros_append, digitsValue_digits]

/-- Zeros may move from the coefficient to the exponent. -/
theorem toFloat_mul_tenPow {coefficient : Int} (nonzero : coefficient ≠ 0) (exponent : Int)
    (zeros : Nat) :
    toFloat ⟨coefficient * 10 ^ zeros, exponent⟩ = toFloat ⟨coefficient, exponent + zeros⟩ := by
  have tens : 0 < 10 ^ zeros := Nat.pow_pos (by decide)
  have size : (coefficient * 10 ^ zeros).natAbs = coefficient.natAbs * 10 ^ zeros := by
    rw [Int.natAbs_mul, Int.natAbs_pow]
    rfl
  have count := trailingZeros_mul_tenPow (Int.natAbs_pos.mpr nonzero) zeros
  have quotient : coefficient.natAbs * 10 ^ zeros /
      tenTo (trailingZeros coefficient.natAbs + zeros) =
      coefficient.natAbs / tenTo (trailingZeros coefficient.natAbs) := by
    change _ / 10 ^ (trailingZeros coefficient.natAbs + zeros) = _
    rw [pow_add, Nat.mul_div_mul_right _ _ tens]
    rfl
  have place : exponent + ((trailingZeros coefficient.natAbs + zeros : Nat) : Int) =
      exponent + zeros + trailingZeros coefficient.natAbs := by
    push_cast
    omega
  have sign : coefficient * 10 ^ zeros < 0 ↔ coefficient < 0 := by
    constructor
    · intro negative
      by_contra! positive
      have product : 0 ≤ coefficient * 10 ^ zeros := by positivity
      omega
    · intro negative
      exact Int.mul_neg_of_neg_of_pos negative (by positivity)
  unfold toFloat
  simp only [size, count, quotient, place, sign]

theorem toFloat_zero (exponent : Int) : toFloat ⟨0, exponent⟩ = 0 := by
  have vanishes (place : Int) : Float.Model.ofScientific 0 place =
      Float.Model.pack (.zero .positive) := by
    unfold Float.Model.ofScientific Float.Model.UnpackedFloat.ofScientific
    rw [dif_pos rfl]
  unfold toFloat
  simp only [Int.natAbs_zero, Nat.zero_div, vanishes]
  rfl

theorem toFloat_neg {coefficient : Nat} (positive : 0 < coefficient) (exponent : Int) :
    toFloat ⟨-coefficient, exponent⟩ = -toFloat ⟨coefficient, exponent⟩ := by
  have first : -(coefficient : Int) < 0 := by omega
  have second : ¬ (coefficient : Int) < 0 := by omega
  unfold toFloat
  simp only [Int.natAbs_neg, if_pos first, if_neg second]

end Decimal

namespace Double

open Float.Model
open Float.Model.UnpackedFloat

theorem eq_of_toBits {first second : Float} (same : first.toBits = second.toBits) :
    first = second := by
  obtain ⟨⟨_, _⟩⟩ := first
  obtain ⟨⟨_, _⟩⟩ := second
  cases same
  rfl

/-- A double whose exponent field is full is no number. -/
theorem biased_ne_of_isFinite {number : Float} (finite : number.isFinite = true) :
    number.toBits.toNat / 2 ^ 52 % 2 ^ 11 ≠ 2047 := by
  intro biased
  have field : @unpackExponent Format.binary64 number.toBits.toBitVec = -1#11 := by
    apply BitVec.eq_of_toNat_eq
    unfold unpackExponent
    rw [BitVec.toNat_cast, BitVec.extractLsb_toNat, Nat.shiftRight_eq_div_pow]
    exact biased
  have shape : number.toModel.unpack.isFinite = false := by
    unfold Float.Model.unpack UnpackedFloat.unpack
    change (if @unpackExponent Format.binary64 number.toBits.toBitVec = -1#11 then _
      else _ : UnpackedFloat).isFinite = false
    rw [if_pos field]
    split <;> rfl
  change number.toModel.unpack.isFinite = true at finite
  rw [shape] at finite
  contradiction

/-- The exponent field of a double that is no number is full. -/
theorem biased_eq_of_not_isFinite {number : Float} (endless : number.isFinite = false) :
    number.toBits.toNat / 2 ^ 52 % 2 ^ 11 = 2047 := by
  by_contra below
  have field : ¬ @unpackExponent Format.binary64 number.toBits.toBitVec = -1#11 := by
    intro full
    apply below
    have value := congrArg BitVec.toNat full
    unfold unpackExponent at value
    rw [BitVec.toNat_cast, BitVec.extractLsb_toNat, Nat.shiftRight_eq_div_pow] at value
    exact value
  have shape : number.toModel.unpack.isFinite = true := by
    unfold Float.Model.unpack UnpackedFloat.unpack
    change (if @unpackExponent Format.binary64 number.toBits.toBitVec = -1#11 then _
      else _ : UnpackedFloat).isFinite = true
    rw [if_neg field]
    by_cases small : @unpackExponent Format.binary64 number.toModel.toBits.toBitVec =
        BitVec.ofNat _ 0
    · rw [if_pos small]
      by_cases none : @unpackMantissa Format.binary64 number.toModel.toBits.toBitVec =
          BitVec.ofNat _ 0
      · rw [dif_pos none]
        rfl
      · rw [dif_neg none]
        rfl
    · rw [if_neg small]
      rfl
  change number.toModel.unpack.isFinite = false at endless
  rw [shape] at endless
  contradiction

namespace Canonical

variable {significand : Nat} {power : Int}

/-- The double itself. -/
def toFloat (canonical : Canonical significand power) (sign : Sign) : Float :=
  Float.ofModel (Float.Model.pack (.finite sign significand power canonical.positive))

theorem toNat_toBits_toFloat (canonical : Canonical significand power) (sign : Sign) :
    (canonical.toFloat sign).toBits.toNat =
      sign.toBitVec.toNat * 2 ^ 63 + ((power + depth).toNat * 2 ^ 52 + significand) :=
  canonical.toNat_pack sign

theorem unpack_toFloat (canonical : Canonical significand power) (sign : Sign) :
    (canonical.toFloat sign).toModel.unpack =
      .finite sign significand power canonical.positive :=
  canonical.unpack_pack sign

theorem neg_toFloat (canonical : Canonical significand power) :
    -canonical.toFloat .positive = canonical.toFloat .negative := by
  change Float.ofModel (Float.Model.pack (canonical.toFloat .positive).toModel.unpack.neg) = _
  rw [unpack_toFloat]
  rfl

theorem isFinite_toFloat (canonical : Canonical significand power) (sign : Sign) :
    (canonical.toFloat sign).isFinite = true := by
  change (canonical.toFloat sign).toModel.unpack.isFinite = true
  rw [unpack_toFloat]
  rfl

theorem toFloat_beq_zero (canonical : Canonical significand power) (sign : Sign) :
    (canonical.toFloat sign == 0) = false := by
  have zero : (0 : Float).toModel.unpack = .zero .positive := rfl
  change (canonical.toFloat sign).toModel.unpack.beq (0 : Float).toModel.unpack = false
  rw [unpack_toFloat, zero]
  cases sign <;> rfl

end Canonical

/-- The two fields of a double that is neither zero nor infinite give its canonical form. -/
theorem canonical_of_fields {fraction biased : Nat} (small : fraction < 2 ^ 52)
    (finite : biased < 2047) (nonzero : biased ≠ 0 ∨ fraction ≠ 0) {parts : Nat × Int}
    (split : parts = if biased == 0 then (fraction, -1074)
      else (fraction + twoTo 52, (biased : Int) - 1075)) :
    Canonical parts.1 parts.2 ∧
      (parts.2 + depth).toNat * 2 ^ 52 + parts.1 = biased * 2 ^ 52 + fraction := by
  subst split
  by_cases zero : biased = 0
  · subst zero
    simp only [beq_self_eq_true, if_true, depth_eq]
    refine ⟨⟨by omega, by omega, by omega, by omega, by omega⟩, by omega⟩
  · have away : (biased == 0) = false := by simp [zero]
    have two : twoTo 52 = 2 ^ 52 := rfl
    have place : ((biased : Int) - 1075 + depth).toNat + 1 = biased := by
      rw [depth_eq]
      omega
    simp only [away, Bool.false_eq_true, if_false, two]
    refine ⟨⟨by omega, by omega, by omega, by omega, by omega⟩, ?_⟩
    nth_rewrite 2 [← place]
    ring

end Double

namespace Decimal

open Double

theorem toFloat_of_agrees {coefficient significand : Nat} {exponent power : Int}
    (agrees : Agrees coefficient exponent significand power)
    (canonical : Canonical significand power) :
    toFloat ⟨coefficient, exponent⟩ = canonical.toFloat .positive := by
  let core := digitsValue (Digits.dropTrailingZeros (digits coefficient))
  have product : core * 10 ^ trailingZeros coefficient = coefficient :=
    digitsValue_dropTrailingZeros coefficient
  have quotient : coefficient / tenTo (trailingZeros coefficient) = core :=
    Nat.div_eq_of_eq_mul_left (Nat.pow_pos (by decide)) product.symm
  have reduced : Agrees core (exponent + trailingZeros coefficient) significand power := by
    rw [← product] at agrees
    exact agrees.of_mul_tenPow
  have nonnegative : ¬ (coefficient : Int) < 0 := by omega
  unfold toFloat
  simp only [Int.natAbs_natCast, quotient, if_neg nonnegative]
  unfold Float.Model.ofScientific
  rw [ofScientific_exact reduced canonical]
  rfl

end Decimal

namespace Digits

open Double

/-- A candidate on either side of a fraction is not negative. -/
theorem coefficient_nonneg_of_mem_neighbours {numerator denominator count : Nat} {first : Int}
    {candidate : Decimal} (near : candidate ∈ neighbours numerator denominator first count) :
    0 ≤ candidate.coefficient := by
  unfold neighbours at near
  grind

/-- What the search finds is a candidate with the number of digits that it tried, or the exact
value. -/
theorem search_cases (reads : Decimal → Bool) (numerator denominator : Nat) (first : Int)
    (exact : Decimal) (attempts count : Nat) :
    search reads numerator denominator first exact attempts count = exact ∨
      ∃ tried, count ≤ tried ∧ tried < count + attempts ∧
        search reads numerator denominator first exact attempts count ∈
          neighbours numerator denominator first tried := by
  induction attempts generalizing count with
  | zero => exact .inl rfl
  | succ attempts inductionHypothesis =>
    unfold search
    split
    next found located =>
      exact .inr ⟨count, le_rfl, by omega, List.mem_of_find?_eq_some located⟩
    next =>
      refine (inductionHypothesis (count + 1)).imp_right ?_
      rintro ⟨tried, least, within, near⟩
      exact ⟨tried, by omega, by omega, near⟩

theorem search_reads {reads : Decimal → Bool} {exact : Decimal} (exactly : reads exact = true)
    (numerator denominator : Nat) (first : Int) (attempts count : Nat) :
    reads (search reads numerator denominator first exact attempts count) = true := by
  induction attempts generalizing count with
  | zero => exact exactly
  | succ attempts inductionHypothesis =>
    unfold search
    split
    next found located => exact List.find?_some located
    next => exact inductionHypothesis (count + 1)

/-- The decimals that the digits of a positive double may be taken from. -/
inductive Approximates (significand : Nat) (power : Int) : Decimal → Prop
  | exact {coefficient : Nat} {exponent : Int}
      (agrees : Agrees coefficient exponent significand power) :
      Approximates significand power ⟨coefficient, exponent⟩
  | near {candidate : Decimal} {tried : Nat} (present : 1 ≤ tried)
      (member : candidate ∈ neighbours (significand * 2 ^ power.toNat) (2 ^ (-power).toNat)
        (order (significand * 2 ^ power.toNat) (2 ^ (-power).toNat)) tried) :
      Approximates significand power candidate

theorem Approximates.nonneg {significand : Nat} {power : Int} {number : Decimal}
    (approximates : Approximates significand power number) : 0 ≤ number.coefficient := by
  cases approximates with
  | exact => exact Int.natCast_nonneg _
  | near _ member => exact coefficient_nonneg_of_mem_neighbours member

/-- The digits of a positive double come from a decimal that is converted to it. -/
theorem ofBinary_spec {significand : Nat} {power : Int} (canonical : Canonical significand power)
    (negative : Bool) (most : Nat) :
    ∃ coefficient exponent, 0 < coefficient ∧
      Decimal.toFloat ⟨(coefficient : Nat), exponent⟩ = canonical.toFloat .positive ∧
      Approximates significand power ⟨coefficient, exponent⟩ ∧
      ofBinary
        (fun candidate => candidate.toFloat.toBits == (canonical.toFloat .positive).toBits) most
        negative significand power = ofDecimal negative ⟨coefficient, exponent⟩ := by
  let reads (candidate : Decimal) : Bool :=
    candidate.toFloat.toBits == (canonical.toFloat .positive).toBits
  -- Whatever the search finds reads back, so it is no zero.
  suffices found : ∃ number : Decimal, reads number = true ∧ Approximates significand power number ∧
      ofBinary reads most negative significand power = ofDecimal negative number by
    obtain ⟨⟨coefficient, exponent⟩, same, approximates, written⟩ := found
    obtain ⟨size, rfl⟩ := Int.eq_ofNat_of_zero_le approximates.nonneg
    have value : Decimal.toFloat ⟨size, exponent⟩ = canonical.toFloat .positive :=
      eq_of_toBits (by simpa [reads] using same)
    refine ⟨size, exponent, ?_, value, approximates, written⟩
    rcases Nat.eq_zero_or_pos size with rfl | positive
    · have unequal := canonical.toFloat_beq_zero .positive
      rw [← value] at unequal
      change (Decimal.toFloat ⟨0, exponent⟩ == 0) = false at unequal
      rw [Decimal.toFloat_zero] at unequal
      exact absurd unequal (by decide)
    · exact positive
  have nonzero : (significand == 0) = false := by simp [canonical.positive.ne']
  have searched {coefficient numerator denominator : Nat} {exponent : Int}
      (agrees : Agrees coefficient exponent significand power)
      (above : numerator = significand * 2 ^ power.toNat) (below : denominator = 2 ^ (-power).toNat) :
      let found := search reads numerator denominator (order numerator denominator)
        ⟨coefficient, exponent⟩ most 1
      reads found = true ∧ Approximates significand power found := by
    subst above below
    refine ⟨search_reads (by simp [reads, Decimal.toFloat_of_agrees agrees canonical]) .., ?_⟩
    rcases search_cases reads _ _ _ ⟨coefficient, exponent⟩ most 1 with
      same | ⟨tried, least, _, member⟩
    · rw [same]
      exact .exact agrees
    · exact .near least member
  unfold ofBinary
  rw [nonzero]
  cases power with
  | ofNat n =>
    have agrees : Agrees (significand * 2 ^ n) 0 significand n := by
      have total : ((n : Int) + depth).toNat = n + depth := by omega
      unfold Agrees
      rw [total, pow_add]
      simp
      ring
    have below : 1 = 2 ^ (-(n : Int)).toNat := by simp
    obtain ⟨same, approximates⟩ := searched agrees (rfl : significand * twoTo n = _) below
    exact ⟨_, same, approximates, rfl⟩
  | negSucc n =>
    have agrees : Agrees (significand * 5 ^ (n + 1)) (.negSucc n) significand (.negSucc n) := by
      have range := canonical.least
      have whole : (Int.negSucc n).toNat = 0 := rfl
      have tens : (-Int.negSucc n).toNat = n + 1 := rfl
      have total : depth = (Int.negSucc n + depth).toNat + (n + 1) := by
        rw [depth_eq]
        omega
      have factors : 10 ^ (n + 1) = 2 ^ (n + 1) * 5 ^ (n + 1) := by rw [← Nat.mul_pow]
      unfold Agrees
      rw [whole, tens]
      nth_rewrite 1 [total]
      rw [pow_add, factors]
      ring
    obtain ⟨same, approximates⟩ := searched agrees (Nat.mul_one significand).symm
      (rfl : twoTo (n + 1) = _)
    exact ⟨_, same, approximates, rfl⟩

/-- What the digits of a finite double are taken from. -/
inductive Describes : Digits → Float → Prop
  | zero : Describes ⟨false, ['0'], 0⟩ 0.0
  | negativeZero : Describes ⟨true, ['0'], 0⟩ (-0.0)
  | positive {significand power coefficient exponent}
      (canonical : Canonical significand power) (nonzero : 0 < coefficient)
      (reads : Decimal.toFloat ⟨(coefficient : Nat), exponent⟩ = canonical.toFloat .positive) :
      Describes (ofDecimal false ⟨coefficient, exponent⟩) (canonical.toFloat .positive)
  | negative {significand power coefficient exponent}
      (canonical : Canonical significand power) (nonzero : 0 < coefficient)
      (reads : Decimal.toFloat ⟨(coefficient : Nat), exponent⟩ = canonical.toFloat .positive) :
      Describes (ofDecimal true ⟨coefficient, exponent⟩) (canonical.toFloat .negative)

/-- What the sign bit of a double says. -/
def sign (negative : Bool) : Float.Model.UnpackedFloat.Sign :=
  if negative then .negative else .positive

/-- A number whose fields below the sign are clear is one of the two zeros. -/
theorem eq_zero_of_clear {number : Float} (clear : number.toBits.toNat % 2 ^ 63 = 0) :
    number = if decide (2 ^ 63 ≤ number.toBits.toNat) then -0.0 else 0.0 := by
  have range : number.toBits.toNat < 2 ^ 64 := number.toBits.toNat_lt
  by_cases negative : 2 ^ 63 ≤ number.toBits.toNat
  · rw [decide_eq_true negative]
    exact eq_of_toBits (UInt64.toNat_inj.mp
      ((by omega : number.toBits.toNat = 2 ^ 63).trans (by decide)))
  · rw [decide_eq_false negative]
    exact eq_of_toBits (UInt64.toNat_inj.mp
      ((by omega : number.toBits.toNat = 0).trans (by decide)))

/-- The fields below the sign give the magnitude of a number, and the sign bit its sign. -/
theorem eq_toFloat_of_magnitude {number : Float} {significand : Nat} {power : Int}
    (canonical : Canonical significand power)
    (magnitude : number.toBits.toNat % 2 ^ 63 = (power + depth).toNat * 2 ^ 52 + significand) :
    UInt64.ofNat (number.toBits.toNat % twoTo 63) = (canonical.toFloat .positive).toBits ∧
      number = canonical.toFloat (sign (decide (2 ^ 63 ≤ number.toBits.toNat))) := by
  have range : number.toBits.toNat < 2 ^ 64 := number.toBits.toNat_lt
  have negativeBits := canonical.toNat_toBits_toFloat .negative
  have positiveBits := canonical.toNat_toBits_toFloat .positive
  rw [← magnitude] at negativeBits positiveBits
  change _ = 1 * 2 ^ 63 + _ at negativeBits
  change _ = 0 * 2 ^ 63 + _ at positiveBits
  constructor
  · apply UInt64.toNat_inj.mp
    rw [UInt64.toNat_ofNat', positiveBits]
    change number.toBits.toNat % 2 ^ 63 % 2 ^ 64 = _
    omega
  · by_cases negative : 2 ^ 63 ≤ number.toBits.toNat
    · rw [decide_eq_true negative]
      exact eq_of_toBits (UInt64.toNat_inj.mp (negativeBits ▸ by omega))
    · rw [decide_eq_false negative]
      exact eq_of_toBits (UInt64.toNat_inj.mp (positiveBits ▸ by omega))

/-- A finite double is a zero, or its digits are those of its canonical form. -/
theorem ofFloat?_cases {number : Float} (finite : number.isFinite = true) :
    (∃ negative, ofFloat? number = some ⟨negative, ['0'], 0⟩ ∧
      number = if negative then -0.0 else 0.0) ∨
    ∃ (negative : Bool) (significand : Nat) (power : Int) (canonical : Canonical significand power),
      ofFloat? number = some (ofBinary
        (fun candidate => candidate.toFloat.toBits == (canonical.toFloat .positive).toBits) 17
        negative significand power) ∧
      number = canonical.toFloat (sign negative) := by
  have below := biased_ne_of_isFinite finite
  have ordinary : (number.toBits.toNat / twoTo 52 % twoTo 11 == 2047) = false :=
    beq_eq_false_iff_ne.mpr below
  generalize split : (if number.toBits.toNat / twoTo 52 % twoTo 11 == 0 then
    (number.toBits.toNat % twoTo 52, (-1074 : Int))
    else (number.toBits.toNat % twoTo 52 + twoTo 52,
      ((number.toBits.toNat / twoTo 52 % twoTo 11 : Nat) : Int) - 1075)) = parts
  have found : ofFloat? number = some (ofBinary
      (fun candidate => candidate.toFloat.toBits == UInt64.ofNat (number.toBits.toNat % twoTo 63))
      17 (decide (2 ^ 63 ≤ number.toBits.toNat)) parts.1 parts.2) := by
    unfold ofFloat?
    simp only [ordinary, split]
    rfl
  by_cases clear : number.toBits.toNat % 2 ^ 63 = 0
  · have first : number.toBits.toNat / twoTo 52 % twoTo 11 = 0 := by
      change number.toBits.toNat / 2 ^ 52 % 2 ^ 11 = 0
      omega
    have second : number.toBits.toNat % twoTo 52 = 0 := by
      change number.toBits.toNat % 2 ^ 52 = 0
      omega
    rw [first, second] at split
    subst split
    exact .inl ⟨_, found, eq_zero_of_clear clear⟩
  · have small : number.toBits.toNat % 2 ^ 52 < 2 ^ 52 := Nat.mod_lt _ (by decide)
    obtain ⟨canonical, layout⟩ := canonical_of_fields small
      (by omega : number.toBits.toNat / 2 ^ 52 % 2 ^ 11 < 2047) (by omega) split.symm
    have magnitude : number.toBits.toNat % 2 ^ 63 =
        (parts.2 + depth).toNat * 2 ^ 52 + parts.1 := by
      rw [layout]
      omega
    obtain ⟨wanted, same⟩ := eq_toFloat_of_magnitude canonical magnitude
    rw [wanted] at found
    exact .inr ⟨_, _, _, canonical, found, same⟩

theorem ofFloat?_describes {number : Float} (finite : number.isFinite = true) :
    ∃ digits, ofFloat? number = some digits ∧ Describes digits number := by
  rcases ofFloat?_cases finite with
    ⟨negative, found, rfl⟩ | ⟨negative, significand, power, canonical, found, rfl⟩
  · cases negative with
    | false => exact ⟨_, found, .zero⟩
    | true => exact ⟨_, found, .negativeZero⟩
  · obtain ⟨coefficient, exponent, nonzero, reads, _, written⟩ :=
      ofBinary_spec canonical negative 17
    rw [written] at found
    cases negative with
    | false => exact ⟨_, found, .positive canonical nonzero reads⟩
    | true => exact ⟨_, found, .negative canonical nonzero reads⟩

/-- The doubles without digits are those that are no numbers. -/
theorem ofFloat?_eq_none_iff {number : Float} :
    ofFloat? number = none ↔ number.isFinite = false := by
  constructor
  · intro absent
    by_contra finite
    obtain ⟨digits, found, _⟩ := ofFloat?_describes (Bool.not_eq_false _ ▸ finite)
    rw [absent] at found
    cases found
  · intro endless
    have full : (number.toBits.toNat / twoTo 52 % twoTo 11 == 2047) = true :=
      beq_iff_eq.mpr (Double.biased_eq_of_not_isFinite endless)
    unfold ofFloat?
    simp only [full]
    rfl

end Digits

end StepQuery
