import StepQuery.Proofs.Number.Conversion

/-!
What the shortest digits of a double look like.  They are few, whatever the number, and do not end in a
zero, so that a number whose digits reach behind the point is not whole.
-/

namespace StepQuery

namespace Decimal

theorem length_digits_le {n places : Nat} (below : n < 10 ^ (places + 1)) :
    (digits n).length ≤ places + 1 :=
  (Nat.length_toDigits_le_iff (by decide) (Nat.succ_pos places)).mpr below

/-- When all zeros at their end are dropped, the digits of a number do not end in one. -/
theorem not_ten_dvd_dropTrailingZeros {n : Nat} (positive : 0 < n) :
    ¬10 ∣ digitsValue (Digits.dropTrailingZeros (digits n)) := by
  rintro ⟨rest, divides⟩
  have product := digitsValue_dropTrailingZeros n
  rw [divides, Nat.mul_comm 10, Nat.mul_assoc, ← Nat.pow_succ'] at product
  have present : 0 < rest := Nat.pos_of_mul_pos_right (product ▸ positive)
  have more := trailingZeros_mul_tenPow present (trailingZeros n + 1)
  rw [product] at more
  omega

/-- A number with a digit other than zero behind the point is not whole. -/
theorem isInteger_eq_false {coefficient zeros places : Nat} (last : ¬10 ∣ coefficient)
    (behind : 0 < places) :
    isInteger ⟨(coefficient * 10 ^ zeros : Nat), -((zeros + places : Nat) : Int)⟩ = false := by
  obtain ⟨n, total⟩ : ∃ n, zeros + places = n + 1 := ⟨zeros + places - 1, by omega⟩
  have nonzero : coefficient ≠ 0 := by
    rintro rfl
    exact last (Nat.dvd_zero 10)
  have indivisible : ¬10 ^ (n + 1) ∣ coefficient * 10 ^ zeros := by
    rw [← total, Nat.add_comm, Nat.pow_add]
    intro divides
    have power := Nat.dvd_of_mul_dvd_mul_right (Nat.pow_pos (by decide)) divides
    exact last ((dvd_pow_self 10 behind.ne').trans power)
  have remains : (coefficient * 10 ^ zeros % tenTo (n + 1) == 0) = false :=
    beq_eq_false_iff_ne.mpr fun none => indivisible (Nat.dvd_of_mod_eq_zero none)
  have present : (((coefficient * 10 ^ zeros : Nat) : Int) == 0) = false := by
    simp [nonzero]
  rw [total]
  change (_ == (0 : Int) || _ && _ % _ == 0) = false
  rw [Int.natAbs_natCast, remains, present, Bool.and_false, Bool.or_false]

end Decimal

namespace Digits

variable {numerator denominator : Nat} {first : Int}

/-- The first digit of a fraction does not stand further behind the point than its denominator is
long. -/
theorem le_order (numerator denominator : Nat) :
    -((Decimal.digits denominator).length : Int) ≤ order numerator denominator := by
  have present : 0 < (Decimal.digits numerator).length := List.length_pos_of_ne_nil Nat.toDigits_ne_nil
  unfold order
  dsimp only
  split
  next => omega
  next => omega

theorem coefficient_le_of_mem_neighbours {count : Nat} {candidate : Decimal}
    (near : candidate ∈ neighbours numerator denominator first count) :
    candidate.coefficient ≤ (numerator * 10 ^ ((count : Int) - 1 - first).toNat : Nat) + 1 := by
  have next : ∀ {low : Nat} {place : Int} {exactly nearer : Bool},
      candidate ∈ (if exactly then [⟨low, place⟩]
        else if nearer then [⟨low, place⟩, ⟨low + 1, place⟩] else [⟨low + 1, place⟩, ⟨low, place⟩] :
        List Decimal) → candidate.coefficient ≤ low + 1 := by
    intro low place exactly nearer
    cases exactly <;> cases nearer <;> simp <;> rintro (rfl | rfl) <;> simp
  unfold neighbours at near
  generalize (count : Int) - 1 - first = shift at near ⊢
  cases shift with
  | ofNat n =>
    have small : numerator * 10 ^ n / denominator ≤ numerator * 10 ^ n := Nat.div_le_self _ _
    exact (next near).trans (Int.add_le_add_right (Int.ofNat_le.mpr small) 1)
  | negSucc n =>
    have small : numerator / (denominator * 10 ^ (n + 1)) ≤ numerator * 10 ^ 0 :=
      (Nat.div_le_self _ _).trans_eq (Nat.mul_one _).symm
    exact (next near).trans (Int.add_le_add_right (Int.ofNat_le.mpr small) 1)

theorem length_dropTrailingZeros_le (digits : List Char) :
    (dropTrailingZeros digits).length ≤ digits.length := by
  rw [dropTrailingZeros, List.length_reverse]
  exact (List.dropWhile_suffix _).length_le.trans_eq List.length_reverse

/-- The search gives no more digits than numerator, denominator and attempts have together. -/
theorem length_search_le (reads : Decimal → Bool) (denominator attempts : Nat) (exact : Decimal)
    {places : Nat} (small : numerator < 10 ^ places)
    (exactly : exact.coefficient.natAbs < 10 ^ places) :
    (Decimal.digits (search reads numerator denominator (order numerator denominator) exact attempts
      1).coefficient.natAbs).length ≤
      places + (attempts + (Decimal.digits denominator).length) + 1 := by
  apply Decimal.length_digits_le
  rcases search_cases reads numerator denominator (order numerator denominator) exact attempts 1
    with same | ⟨tried, _, few, near⟩
  · rw [same]
    exact exactly.trans_le (Nat.pow_le_pow_right (by decide) (by omega))
  · have lowest := le_order numerator denominator
    have nonnegative := coefficient_nonneg_of_mem_neighbours near
    have bound := coefficient_le_of_mem_neighbours near
    generalize more : attempts + (Decimal.digits denominator).length = shift
    have shifted : 10 ^ ((tried : Int) - 1 - order numerator denominator).toNat ≤ 10 ^ shift :=
      Nat.pow_le_pow_right (by decide) (by omega)
    have scaled : numerator * 10 ^ ((tried : Int) - 1 - order numerator denominator).toNat + 1 ≤
        10 ^ (places + shift) := by
      calc numerator * 10 ^ ((tried : Int) - 1 - order numerator denominator).toNat + 1
          ≤ numerator * 10 ^ shift + 10 ^ shift :=
            Nat.add_le_add (Nat.mul_le_mul_left _ shifted) (Nat.pow_pos (by decide))
        _ = (numerator + 1) * 10 ^ shift := (Nat.succ_mul _ _).symm
        _ ≤ 10 ^ places * 10 ^ shift := Nat.mul_le_mul_right _ small
        _ = 10 ^ (places + shift) := (Nat.pow_add _ _ _).symm
    have grows : 10 ^ (places + shift) < 10 ^ (places + shift + 1) :=
      Nat.pow_lt_pow_right (by decide) (Nat.lt_succ_self _)
    omega

theorem length_ofDecimal_le (negative : Bool) (number : Decimal) :
    (ofDecimal negative number).digits.length ≤ (Decimal.digits number.coefficient.natAbs).length :=
  length_dropTrailingZeros_le _

theorem length_ofBinary_le (reads : Decimal → Bool) (most : Nat) (negative : Bool)
    {significand bits range : Nat} {power : Int} (small : significand < 2 ^ bits)
    (low : -(range : Int) ≤ power) (high : power ≤ range) :
    (ofBinary reads most negative significand power).digits.length ≤
      bits + range + (most + (range + 1)) + 1 := by
  have base : ∀ places : Nat, 2 ^ places ≤ 10 ^ places := fun places =>
    Nat.pow_le_pow_left (by decide) places
  unfold ofBinary
  split
  next => exact Nat.succ_le_succ (Nat.zero_le _)
  next =>
    refine (length_ofDecimal_le _ _).trans ?_
    cases power with
    | ofNat n =>
      have within : n ≤ range := Int.ofNat_le.mp high
      have below : significand * 2 ^ n < 10 ^ (bits + range) := by
        calc significand * 2 ^ n < 2 ^ bits * 2 ^ n :=
              Nat.mul_lt_mul_of_pos_right small (Nat.pow_pos (by decide))
          _ = 2 ^ (bits + n) := (Nat.pow_add _ _ _).symm
          _ ≤ 2 ^ (bits + range) := Nat.pow_le_pow_right (by decide) (by omega)
          _ ≤ 10 ^ (bits + range) := base _
      have searched := length_search_le reads 1 most ⟨(significand * 2 ^ n : Nat), 0⟩ below below
      have one : (Decimal.digits 1).length = 1 := rfl
      exact searched.trans (by omega)
    | negSucc n =>
      have within : n + 1 ≤ range := by omega
      have numerator : significand < 10 ^ (bits + range) :=
        (small.trans_le (base bits)).trans_le (Nat.pow_le_pow_right (by decide) (by omega))
      have below : significand * 5 ^ (n + 1) < 10 ^ (bits + range) := by
        calc significand * 5 ^ (n + 1) < 2 ^ bits * 5 ^ (n + 1) :=
              Nat.mul_lt_mul_of_pos_right small (Nat.pow_pos (by decide))
          _ ≤ 10 ^ bits * 10 ^ range := Nat.mul_le_mul (base bits)
              ((Nat.pow_le_pow_left (by decide) _).trans (Nat.pow_le_pow_right (by decide) within))
          _ = 10 ^ (bits + range) := (Nat.pow_add _ _ _).symm
      have denominator : (Decimal.digits (2 ^ (n + 1))).length ≤ range + 1 := by
        apply Decimal.length_digits_le
        calc 2 ^ (n + 1) ≤ 10 ^ (n + 1) := base (n + 1)
          _ < 10 ^ (range + 1) := Nat.pow_lt_pow_right (by decide) (by omega)
      have searched := length_search_le reads (2 ^ (n + 1)) most
        ⟨(significand * 5 ^ (n + 1) : Nat), .negSucc n⟩ numerator below
      exact searched.trans (by omega)

theorem describes_of_ofFloat? {number : Float} {digits : Digits}
    (found : ofFloat? number = some digits) : Describes digits number := by
  have finite : number.isFinite = true := by
    by_contra endless
    rw [ofFloat?_eq_none_iff.mpr (Bool.eq_false_iff.mpr endless)] at found
    cases found
  obtain ⟨_, same, describes⟩ := ofFloat?_describes finite
  cases found.symm.trans same
  exact describes

/-- The digits of a double are few. -/
theorem length_ofFloat?_le {number : Float} {digits : Digits} (found : ofFloat? number = some digits) :
    digits.digits.length ≤ 2220 := by
  have fraction : number.toBits.toNat % twoTo 52 < 2 ^ 52 := Nat.mod_lt _ (by decide)
  have biased : number.toBits.toNat / twoTo 52 % twoTo 11 < 2 ^ 11 := Nat.mod_lt _ (by decide)
  generalize split : (if number.toBits.toNat / twoTo 52 % twoTo 11 == 0 then
    (number.toBits.toNat % twoTo 52, (-1074 : Int))
    else (number.toBits.toNat % twoTo 52 + twoTo 52,
      ((number.toBits.toNat / twoTo 52 % twoTo 11 : Nat) : Int) - 1075)) = parts
  have range : parts.1 < 2 ^ 53 ∧ -((1074 : Nat) : Int) ≤ parts.2 ∧ parts.2 ≤ (1074 : Nat) := by
    subst split
    generalize number.toBits.toNat / twoTo 52 % twoTo 11 = biased at biased
    split
    next => dsimp only; omega
    next present =>
      rw [beq_iff_eq] at present
      change _ + 2 ^ 52 < _ ∧ _
      dsimp only
      omega
  unfold ofFloat? at found
  simp only [split] at found
  split at found
  next => cases found
  next finite =>
    cases found
    exact length_ofBinary_le _ 17 _ range.1 range.2.1 range.2.2

end Digits

end StepQuery
