import StepQuery.Proofs.Casting.Routes
import StepQuery.Proofs.Formula.Calculation
import StepQuery.Proofs.Formula.Literals
import StepQuery.Proofs.Number.Nearness
import StepQuery.Proofs.Query.Stopping

/-!
When a number stays the same number while it is coerced to an integer.  What is coerced is the exact number
of an integer or of the text of one, and the number that the shortest digits denote of anything that is, or
is first made, a double.  The result is what its low 64 bits stand for.  So a number is kept just if it fits
and, for doubles, if their digits denote it; which they do up to `2 ^ 53`.
-/

namespace StepQuery

/-- The number that the shortest digits of a double denote. -/
def Digits.denoted? (number : Float) : Option ℚ :=
  (ofFloat? number).map fun digits => digits.toDecimal.rational

namespace Double

theorem isFinite_of_rational? {number : Float} {exact : ℚ} (is : rational? number = some exact) :
    number.isFinite = true := by
  change number.toModel.unpack.isFinite = true
  unfold rational? at is
  split at is
  next same => rw [same]; rfl
  next same => rw [same]; rfl
  next same => rw [same]; rfl
  next => cases is

theorem rational?_toFloat {significand : ℕ} {power : ℤ} (canonical : Canonical significand power)
    (negative : Bool) :
    rational? (canonical.toFloat (Digits.sign negative)) =
      some (if negative then -rational significand power else rational significand power) := by
  rw [rational?, canonical.unpack_toFloat]
  cases negative <;> rfl

/-- The digits of a double denote no number of the other sign or more than twice as large, and up to
`2 ^ 53` none but the double itself if either is whole. -/
theorem exists_denoted {number : Float} {exact : ℚ} (is : rational? number = some exact) :
    ∃ shown, Digits.denoted? number = some shown ∧ |shown - exact| ≤ |exact| ∧
      (|exact| ≤ 2 ^ 53 → ((∃ whole : ℤ, shown = whole) ∨ ∃ whole : ℤ, exact = whole) →
        shown = exact) := by
  rcases Digits.ofFloat?_cases (isFinite_of_rational? is) with
    ⟨negative, found, rfl⟩ | ⟨negative, significand, power, canonical, found, rfl⟩
  · have zero : rational? (if negative then -0.0 else 0.0) = some 0 := by cases negative <;> rfl
    obtain rfl : 0 = exact := Option.some.inj (zero.symm.trans is)
    refine ⟨0, ?_, by simp, fun _ _ => rfl⟩
    rw [Digits.denoted?, found]
    cases negative <;> simp [Digits.toDecimal, Decimal.rational, Decimal.digitsValue]
  · rw [rational?_toFloat, Option.some.injEq] at is
    obtain ⟨coefficient, exponent, nonzero, reads, approximates, written⟩ :=
      Digits.ofBinary_spec canonical negative 17
    rw [written] at found
    have twice := approximates.rational_le canonical
    have positive : 0 < Decimal.rational ⟨coefficient, exponent⟩ :=
      mul_pos (Int.cast_pos.mpr (Int.natCast_pos.mpr nonzero)) (by positivity)
    have magnitude := canonical.rational_pos
    have near : |Decimal.rational ⟨coefficient, exponent⟩ - rational significand power| ≤
        |rational significand power| := by
      rw [abs_of_pos magnitude, abs_le]
      constructor <;> linarith
    have natural {value : ℚ} (above : 0 < value) : (∃ whole : ℤ, value = whole) → ∃ n : ℕ, value = n := by
      rintro ⟨whole, rfl⟩
      exact ⟨whole.toNat, by exact_mod_cast (Int.toNat_of_nonneg (Int.cast_pos.mp above).le).symm⟩
    have kept (small : |rational significand power| ≤ 2 ^ 53)
        (whole : (∃ whole : ℤ, Decimal.rational ⟨coefficient, exponent⟩ = whole) ∨
          ∃ whole : ℤ, rational significand power = whole) :
        Decimal.rational ⟨coefficient, exponent⟩ = rational significand power :=
      approximates.rational_eq canonical nonzero reads (abs_of_pos magnitude ▸ small)
        (whole.imp (natural positive) (natural magnitude))
    refine ⟨_, by rw [Digits.denoted?, found, Option.map_some, Digits.rational_toDecimal_ofDecimal], ?_⟩
    cases negative with
    | false =>
      subst is
      exact ⟨near, kept⟩
    | true =>
      subst is
      have opposite {value : ℚ} : (∃ whole : ℤ, -value = whole) → ∃ whole : ℤ, value = whole := by
        rintro ⟨whole, same⟩
        exact ⟨-whole, by rw [Int.cast_neg, ← same, neg_neg]⟩
      simp only [if_true, neg_sub_neg, abs_neg]
      exact ⟨abs_sub_comm (Decimal.rational _) _ ▸ near,
        fun small whole => congrArg Neg.neg (kept small (whole.imp opposite opposite))⟩

end Double

namespace Value

/-- The number that a value is, if it is one. -/
def rational? : Value → Option ℚ
  | .int value => some value.toInt
  | .uint value => some value.toNat
  | .single value => Double.rational? value.toFloat
  | .double value => Double.rational? value
  | .decimal value => some value.rational
  | .text content => (Casting.decimal? content).map Decimal.rational
  | _ => none

/-- The number that is coerced for a value. -/
def taken? (value : Value) : Option ℚ :=
  match value.floating? with
  | some number => Digits.denoted? number
  | none => value.rational?

end Value

namespace Casting

/-- Where a whole number is taken, what comes of it is what its low bits stand for. -/
theorem lowBits_eq_ok_iff {attempt : Attempt Int64} {taken : Option ℚ} {result : Int64} (whole : ℤ)
    (coerced : attempt = .ok (Int64.ofInt whole)) (same : taken = some (whole : ℚ)) :
    attempt = .ok result ↔ ∃ other : ℤ, taken = some (other : ℚ) ∧ result = Int64.ofInt other := by
  rw [coerced, same]
  constructor
  · intro read
    cases read
    exact ⟨whole, rfl, rfl⟩
  · rintro ⟨other, found, rfl⟩
    rw [Int.cast_injective (Option.some.inj found)]

theorem floatInteger_eq_ok_iff {number : Float} {result : Int64} :
    floatInteger number = .ok result ↔
      ∃ whole : ℤ, Digits.denoted? number = some (whole : ℚ) ∧ result = Int64.ofInt whole := by
  unfold floatInteger Digits.denoted?
  cases Digits.ofFloat? number with
  | none => exact ⟨nofun, nofun⟩
  | some digits =>
    dsimp only [Option.map_some]
    split
    next isInteger =>
      obtain ⟨whole, same⟩ := Decimal.isInteger_iff.mp isInteger
      rw [same, Decimal.integerPart_of_rational same]
      exact lowBits_eq_ok_iff whole rfl rfl
    next fraction =>
      refine ⟨fun read => absurd read Attempt.fail_ne_ok, ?_⟩
      rintro ⟨whole, found, _⟩
      exact absurd (Decimal.isInteger_iff.mpr ⟨whole, Option.some.inj found⟩) fraction

section Texts

variable {content : String} {decimal : Decimal}

theorem integer_of_isInteger (read : decimal? content = some decimal) (whole : decimal.isInteger = true) :
    integer (.text content) = .ok decimal.integerPart ∧
      (Value.text content).taken? = some decimal.rational := by
  constructor
  · rw [integer, number_of_decimal? read, whole]
    rfl
  · simp [Value.taken?, Value.floating?, Value.rational?, read, whole]

theorem integer_of_fraction (read : decimal? content = some decimal) (fraction : decimal.isInteger = false) :
    integer (.text content) = floatInteger decimal.toFloat ∧
      (Value.text content).taken? = Digits.denoted? decimal.toFloat := by
  constructor
  · rw [integer, number_of_decimal? read, fraction]
    rfl
  · simp [Value.taken?, Value.floating?, read, fraction]

end Texts

/-- What is coerced for a value is whole, and the result is what its low bits stand for. -/
theorem integer_eq_ok_iff {value : Value} {result : Int64} :
    integer value = .ok result ↔
      ∃ whole : ℤ, value.taken? = some (whole : ℚ) ∧ result = Int64.ofInt whole := by
  cases value with
  | int held =>
    exact lowBits_eq_ok_iff held.toInt (congrArg Except.ok (Int64.ofInt_toInt held).symm) rfl
  | uint held => exact lowBits_eq_ok_iff held.toNat rfl (congrArg some (Int.cast_natCast _).symm)
  | single held | double held | decimal held => exact floatInteger_eq_ok_iff
  | text content =>
    cases read : decimal? content with
    | none =>
      have nothing : (Value.text content).taken? = none := by
        simp [Value.taken?, Value.floating?, Value.rational?, read]
      rw [integer, number, read, nothing]
      exact iff_of_false (by rintro ⟨⟩) (by rintro ⟨_, ⟨⟩, _⟩)
    | some decimal =>
      cases isInteger : decimal.isInteger with
      | true =>
        obtain ⟨whole, same⟩ := Decimal.isInteger_iff.mp isInteger
        obtain ⟨coerced, taken⟩ := integer_of_isInteger read isInteger
        exact lowBits_eq_ok_iff whole (coerced.trans (congrArg _ (Decimal.integerPart_of_rational same)))
          (taken.trans (congrArg some same))
      | false =>
        obtain ⟨coerced, taken⟩ := integer_of_fraction read isInteger
        rw [coerced, taken]
        exact floatInteger_eq_ok_iff
  | _ => exact iff_of_false (by rintro ⟨⟩) (by rintro ⟨_, ⟨⟩, _⟩)

section Kept

variable {value : Value} {exact : ℚ}

/-- What is coerced for a number that is no decimal, and no text unless it is whole. -/
theorem exists_taken (plain : ∀ decimal, value ≠ .decimal decimal) (is : value.rational? = some exact)
    (written : (∃ whole : ℤ, exact = whole) ∨ ∀ content, value ≠ .text content) :
    ∃ taken, value.taken? = some taken ∧ |taken - exact| ≤ |exact| ∧
      (|exact| ≤ 2 ^ 53 → ((∃ whole : ℤ, taken = whole) ∨ ∃ whole : ℤ, exact = whole) →
        taken = exact) := by
  have kept (same : value.taken? = some exact) : ∃ taken, value.taken? = some taken ∧
      |taken - exact| ≤ |exact| ∧ (|exact| ≤ 2 ^ 53 →
        ((∃ whole : ℤ, taken = whole) ∨ ∃ whole : ℤ, exact = whole) → taken = exact) :=
    ⟨exact, same, by simp, fun _ _ => rfl⟩
  cases value with
  | int | uint => exact kept is
  | single held | double held => exact Double.exists_denoted is
  | decimal decimal => exact absurd rfl (plain decimal)
  | text content =>
    obtain ⟨decimal, read, rfl⟩ := Option.map_eq_some_iff.mp is
    have whole := written.resolve_right fun other => other content rfl
    exact kept (integer_of_isInteger read (Decimal.isInteger_iff.mpr whole)).2
  | _ => cases is

/-- Numbers that are told apart by no low bits and are no further apart than the smaller of them is from
zero are the same, if that one fits. -/
theorem eq_of_toInt_ofInt {whole exact : ℤ} (same : (Int64.ofInt whole).toInt = exact)
    (near : |(whole : ℚ) - exact| ≤ |(exact : ℚ)|) : whole = exact := by
  have fits : |exact| ≤ 2 ^ 63 := by
    have least := (Int64.ofInt whole).le_toInt
    have most := (Int64.ofInt whole).toInt_lt
    rw [same] at least most
    exact abs_le.mpr ⟨least, most.le⟩
  have near : |whole - exact| ≤ |exact| := by exact_mod_cast near
  have apart : (2 ^ 64 : ℤ) ∣ whole - exact := by
    rw [← same, Int64.toInt_ofInt]
    exact Int.dvd_self_sub_bmod
  have close : |whole - exact| < 2 ^ 64 := (near.trans fits).trans_lt (by norm_num)
  exact sub_eq_zero.mp (Int.eq_zero_of_abs_lt_dvd apart close)

/-- A number is coerced to itself just if it fits and is what is coerced for it. -/
theorem toInt_eq_iff (plain : ∀ decimal, value ≠ .decimal decimal) (is : value.rational? = some exact)
    {result : Int64} (coerced : integer value = .ok result) :
    (result.toInt : ℚ) = exact ↔ Fits exact ∧ value.taken? = some exact := by
  obtain ⟨whole, taken, rfl⟩ := integer_eq_ok_iff.mp coerced
  constructor
  · rintro rfl
    obtain ⟨other, same, near, _⟩ := exists_taken plain is (.inl ⟨_, rfl⟩)
    obtain rfl : (whole : ℚ) = other := Option.some.inj (taken.symm.trans same)
    have unchanged := eq_of_toInt_ofInt rfl near
    exact ⟨fits_toInt _, by rw [taken, ← unchanged]⟩
  · rintro ⟨fits, same⟩
    obtain rfl : (whole : ℚ) = exact := Option.some.inj (taken.symm.trans same)
    rw [(toInt_ofInt_eq_iff whole).mpr fits]

/-- Up to `2 ^ 53` the whole numbers are coerced, each to itself, and no other numbers. -/
theorem integer_eq_ok_iff_of_small (plain : ∀ decimal, value ≠ .decimal decimal)
    (is : value.rational? = some exact) (small : |exact| ≤ 2 ^ 53)
    (written : (∃ whole : ℤ, exact = whole) ∨ ∀ content, value ≠ .text content) (result : Int64) :
    integer value = .ok result ↔ (result.toInt : ℚ) = exact := by
  obtain ⟨shown, taken, _, same⟩ := exists_taken plain is written
  have fits : Fits exact := by
    obtain ⟨least, most⟩ := abs_le.mp small
    exact ⟨by linarith, by linarith⟩
  constructor
  · intro coerced
    obtain ⟨whole, found, _⟩ := integer_eq_ok_iff.mp coerced
    obtain rfl : shown = whole := Option.some.inj (taken.symm.trans found)
    exact (toInt_eq_iff plain is coerced).mpr ⟨fits, taken.trans (congrArg some (same small (.inl ⟨_, rfl⟩)))⟩
  · rintro rfl
    refine integer_eq_ok_iff.mpr ⟨result.toInt, ?_, (Int64.ofInt_toInt result).symm⟩
    rw [taken, same small (.inr ⟨_, rfl⟩)]

end Kept

end Casting

namespace Formula

/-- The whole numbers of a tree. -/
def Tree.wholes : Tree → List Int64
  | .number (.whole value) => [value]
  | .number (.fraction _) | .text _ | .column _ => []
  | .negate operand => operand.wholes
  | .binary _ left right => left.wholes ++ right.wholes

theorem mem_wholes_tree {formula : Formula} {span : Span} {value : Int64}
    (member : .number span (.whole value) ∈ formula.literals) : value ∈ formula.tree.wholes := by
  induction formula with
  | number =>
    cases List.mem_singleton.mp member
    exact List.mem_singleton_self value
  | text | column => simp [literals] at member
  | negate _ _ inductionHypothesis => exact inductionHypothesis member
  | binary _ _ _ _ left right =>
    exact List.mem_append.mpr ((List.mem_append.mp member).imp left right)

theorem mem_wholes_negated {tree : Tree} {value : Int64} (member : value ∈ tree.negated.wholes) :
    ∃ other ∈ tree.wholes, value = other ∨ value = -other := by
  cases tree with
  | number literal =>
    cases literal with
    | whole other => exact ⟨other, List.mem_singleton_self _, .inr (List.mem_singleton.mp member)⟩
    | fraction => cases member
  | text | column | negate | binary => exact ⟨value, member, .inl rfl⟩

/-- A number stands for digits with or without a minus that are written in a text. -/
def Stands (text : List Char) (value : Int64) : Prop :=
  ∃ negative digits, AllDigits digits ∧ digits ≠ [] ∧ digits <:+: text ∧
    value = Int64.ofInt (Decimal.signed negative (Decimal.digitsValue digits))

namespace Stands

variable {text : List Char} {value : Int64}

theorem mono {other : List Char} (stands : Stands text value) (within : text <:+: other) :
    Stands other value := by
  obtain ⟨negative, digits, each, present, inside, same⟩ := stands
  exact ⟨negative, digits, each, present, inside.trans within, same⟩

theorem neg (stands : Stands text value) : Stands text (-value) := by
  obtain ⟨negative, digits, each, present, inside, rfl⟩ := stands
  refine ⟨!negative, digits, each, present, inside, ?_⟩
  rw [← Int64.ofInt_neg]
  cases negative <;> simp [Decimal.signed]

theorem of_spells (spells : Spells (.number (.whole value)) text) : Stands text value := by
  cases spells with
  | number figure read kind =>
    have literal := (literal?_eq_some_iff figure).mpr ⟨_, read, kind⟩
    obtain ⟨digits, present⟩ : AllDigits text ∧ text ≠ [] := by
      refine figure.cases.resolve_right ?_
      rintro ⟨whole, fraction, rfl, _⟩
      have pointed : (whole ++ '.' :: fraction).contains '.' = true := by simp
      rw [pointed] at kind
      unfold Literal.ofNumber? at kind
      split at kind <;> simp at kind
    rw [literal?_of_allDigits digits present] at literal
    cases literal
    exact ⟨false, text, digits, present, List.infix_rfl, rfl⟩

end Stands

/-- Every whole number of a formula is written in its text. -/
theorem Derives.stands {level : Level} {text : List Char} {tree : Tree}
    (derived : Derives Written level text tree) : ∀ value ∈ tree.wholes, Stands text value := by
  induction derived with
  | sum _ inductionHypothesis | product _ inductionHypothesis | signed _ inductionHypothesis =>
    exact inductionHypothesis
  | @addition _ first second sign _ _ _ _ _ _ left right
  | @multiplication _ first second sign _ _ _ _ _ _ left right =>
    intro value member
    rcases List.mem_append.mp member with member | member
    · exact (left value member).mono ((List.prefix_append first (sign ++ second)).isInfix.trans
        (by rw [List.append_assoc]))
    · exact (right value member).mono (List.suffix_append (first ++ sign) second).isInfix
  | @minus sign text _ _ _ inductionHypothesis =>
    intro value member
    obtain ⟨other, inner, rfl | rfl⟩ := mem_wholes_negated member
    · exact (inductionHypothesis _ inner).mono (List.suffix_append sign text).isInfix
    · exact ((inductionHypothesis _ inner).mono (List.suffix_append sign text).isInfix).neg
  | @number _ literal written =>
    obtain ⟨before, spelling, after, _, spells, _, rfl⟩ := written
    cases literal with
    | whole value =>
      rintro _ (_ | ⟨_, ⟨⟩⟩)
      exact (Stands.of_spells spells).mono (List.infix_append ..)
    | fraction => nofun
  | text | column => nofun
  | @parentheses before text after _ _ _ _ inductionHypothesis =>
    exact fun value member => (inductionHypothesis value member).mono (List.infix_append ..)

/-- A number with or without a minus, as the only thing in a formula. -/
theorem formulaTerm_of_allDigits (negative : Bool) {digits : List Char} (each : AllDigits digits)
    (present : digits ≠ []) :
    (Value.text (String.ofList (Decimal.signText negative ++ digits))).formulaTerm =
      .ok (.constant (.int (Int64.ofInt (Decimal.signed negative (Decimal.digitsValue digits))))) := by
  have derived := derives_signed (spells_of_allDigits each present) negative
  rw [← String.toList_ofList (l := Decimal.signText negative ++ digits)] at derived
  obtain ⟨formula, read, same⟩ := exists_parse_iff.mpr derived
  rw [Value.formulaTerm, read]
  cases formula with
  | number span literal =>
    cases same
    cases negative with
    | false => rfl
    | true =>
      exact congrArg (fun value => (Except.ok (.constant (.int value)) : Attempt Term))
        (Int64.ofInt_neg _).symm
  | text | column | negate | binary => cases same

end Formula

namespace Casting

/-- All routes from a text to an integer end at the low bits of the number. -/
theorem ofInt_of_routes {content : String} {decimal : Decimal} {whole : ℤ} {result : Int64}
    (read : decimal? content = some decimal) (same : decimal.rational = whole)
    (found : cast content .integer = .ok (.int result) ∨ number (.text content) = .ok (.int result) ∨
      infer content = .int result) : result = Int64.ofInt whole := by
  have isInteger := Decimal.isInteger_iff.mpr ⟨whole, same⟩
  rw [← Decimal.integerPart_of_rational same]
  rw [cast_integer_of_decimal? read, number_of_decimal? read, infer_of_decimal? read, isInteger] at found
  rcases found with found | found | found
  · cases found
    rfl
  · cases found
    rfl
  · split at found
    · cases found
      rfl
    · cases found

/-- When coercion keeps a number.  An integer that is cast, coerced or guessed from the text of a whole
number is that number just if it fits into 64 bits.  A value that is an exact number is coerced to it just
if it fits and, for a double, if its shortest digits denote it; up to `2 ^ 53` the whole numbers are coerced,
each to itself, and no fractions, unless they are written as texts.  So a whole number in a formula reaches
the expression, and a value that is the limit of a top step its stages, as it is just if it is kept so. -/
theorem numbers_kept_iff (content : String) (value : Value) :
    (∀ decimal (whole : ℤ) (result : Int64), decimal? content = some decimal →
      decimal.rational = whole →
      cast content .integer = .ok (.int result) ∨ number (.text content) = .ok (.int result) ∨
        infer content = .int result →
      (result.toInt = whole ↔ Fits whole)) ∧
    (∀ (exact : ℚ) (result : Int64), (∀ decimal, value ≠ .decimal decimal) →
      value.rational? = some exact → integer value = .ok result →
      ((result.toInt : ℚ) = exact ↔ Fits exact ∧ value.taken? = some exact)) ∧
    (∀ (exact : ℚ) (result : Int64), (∀ decimal, value ≠ .decimal decimal) →
      value.rational? = some exact → |exact| ≤ 2 ^ 53 →
      ((∃ whole : ℤ, exact = whole) ∨ ∀ content, value ≠ .text content) →
      (integer value = .ok result ↔ (result.toInt : ℚ) = exact)) ∧
    (∀ negative digits, AllDigits digits → digits ≠ [] → ∃ result : Int64,
      (Value.text (String.ofList (Decimal.signText negative ++ digits))).formulaTerm =
        .ok (.constant (.int result)) ∧
      (result.toInt = Decimal.signed negative (Decimal.digitsValue digits) ↔
        Fits (Decimal.signed negative (Decimal.digitsValue digits)))) ∧
    (∀ formula span (result : Int64), Formula.parse content = .ok formula →
      .number span (.whole result) ∈ formula.literals →
      ∃ negative digits, AllDigits digits ∧ digits ≠ [] ∧ digits <:+: content.toList ∧
        (result.toInt = Decimal.signed negative (Decimal.digitsValue digits) ↔
          Fits (Decimal.signed negative (Decimal.digitsValue digits)))) ∧
    ∀ backend groups rankOn order stages,
      Staging.operationStages backend (.top groups rankOn order value) = .ok stages →
      ∃ result, integer value = .ok result ∧ stages = Staging.top groups rankOn order result ∧
        ∀ exact, (∀ decimal, value ≠ .decimal decimal) → value.rational? = some exact →
          ((result.toInt : ℚ) = exact ↔ Fits exact ∧ value.taken? = some exact) := by
  refine ⟨?_, ?_, ?_, ?_, ?_, ?_⟩
  · rintro decimal whole result read same found
    rw [ofInt_of_routes read same found]
    exact toInt_ofInt_eq_iff whole
  · exact fun exact result plain is coerced => toInt_eq_iff plain is coerced
  · exact fun exact result plain is small written => integer_eq_ok_iff_of_small plain is small written result
  · exact fun negative digits each present =>
      ⟨_, Formula.formulaTerm_of_allDigits negative each present, toInt_ofInt_eq_iff _⟩
  · intro formula span result read member
    have derived := Formula.exists_parse_iff.mp ⟨formula, read, rfl⟩
    obtain ⟨negative, digits, each, present, inside, rfl⟩ :=
      derived.stands result (Formula.mem_wholes_tree member)
    exact ⟨negative, digits, each, present, inside, toInt_ofInt_eq_iff _⟩
  · intro backend groups rankOn order stages returned
    obtain ⟨result, coerced, same⟩ := Attempt.bind_eq_ok.mp returned
    cases same
    have coerced := Attempt.inside_eq_ok.mp coerced
    exact ⟨result, coerced, rfl, fun exact plain is => toInt_eq_iff plain is coerced⟩

/-- Numbers that coercion changes: a whole number beyond 64 bits, cast from a text, taken for an integer
without a sign or written in a formula; a power of two that the shortest digits of its double do not denote;
and a fraction whose nearest double is whole. -/
theorem numbers_changed :
    (decimal? "9223372036854775808" = some ⟨9223372036854775808, 0⟩ ∧
      cast "9223372036854775808" .integer = .ok (.int (-9223372036854775808))) ∧
    (Value.rational? (.uint 18446744073709551615) = some 18446744073709551615 ∧
      integer (.uint 18446744073709551615) = .ok (-1)) ∧
    (Value.rational? (.double 4611686018427387904) = some 4611686018427387904 ∧
      integer (.double 4611686018427387904) = .ok 4611686018427388000) ∧
    (Value.rational? (.text "0.99999999999999999999") = some (99999999999999999999 / 10 ^ 20) ∧
      integer (.text "0.99999999999999999999") = .ok 1) ∧
    (Value.text "9223372036854775808").formulaTerm =
      .ok (.constant (.int (-9223372036854775808))) := by
  refine ⟨⟨by decide +kernel, rfl⟩, ⟨rfl, rfl⟩, ⟨by decide +kernel, ?_⟩, ⟨?_, ?_⟩, rfl⟩
  · have digits : Digits.ofFloat? 4611686018427387904 =
        some ⟨false, "4611686018427388".toList, 18⟩ := by decide +kernel
    have double : ∀ number, integer (.double number) = floatInteger number := fun _ => rfl
    rw [double, floatInteger, digits]
    rfl
  all_goals
    have read : decimal? "0.99999999999999999999" = some ⟨99999999999999999999, -20⟩ := by
      decide +kernel
  · rw [Value.rational?, read]
    norm_num [Decimal.rational]
  · have digits : Digits.ofFloat? (Decimal.toFloat ⟨99999999999999999999, -20⟩) =
        some ⟨false, ['1'], 0⟩ := by decide +kernel
    rw [(integer_of_fraction read (by decide +kernel)).1, floatInteger, digits]
    rfl

end Casting

end StepQuery
