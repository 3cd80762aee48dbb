import Mathlib.Data.List.TakeWhile
import StepQuery.Json.Reader
import StepQuery.Proofs.Number.Conversion
import StepQuery.Value

/-!
Numbers as text.  A numeral is a number taken apart into the pieces that are written one after the
other; its text is read back as its value, and as a whole by the reader of documents.  The numeral of
a finite double has a value that is converted to the double.
-/

namespace StepQuery

open Text (isAsciiDigit)

/-- Digits only. -/
abbrev AllDigits (text : List Char) : Prop := ∀ character ∈ text, isAsciiDigit character = true

namespace AllDigits

theorem digits (n : Nat) : AllDigits (Decimal.digits n) := by
  intro character within
  have digit := Nat.isDigit_of_mem_toDigits (by decide) (by decide) within
  simpa [Char.isDigit, isAsciiDigit, Char.le_def] using digit

theorem append {first second : List Char} (left : AllDigits first) (right : AllDigits second) :
    AllDigits (first ++ second) := by
  intro character within
  rcases List.mem_append.mp within with found | found
  · exact left character found
  · exact right character found

theorem zeros (count : Nat) : AllDigits (List.replicate count '0') := by
  intro character within
  rw [List.eq_of_mem_replicate within]
  rfl

end AllDigits

/-- What a text starts with is no digit. -/
abbrev NoDigitNext (rest : List Char) : Prop :=
  ∀ character ∈ rest.head?, isAsciiDigit character = false

theorem takeWhile_isAsciiDigit {text rest : List Char} (digits : AllDigits text)
    (stops : NoDigitNext rest) : (text ++ rest).takeWhile isAsciiDigit = text := by
  rw [List.takeWhile_append_of_pos digits]
  cases rest with
  | nil => simp
  | cons first others => simp [stops first rfl]

theorem dropWhile_isAsciiDigit {text rest : List Char} (digits : AllDigits text)
    (stops : NoDigitNext rest) : (text ++ rest).dropWhile isAsciiDigit = rest := by
  rw [List.dropWhile_append_of_pos digits]
  cases rest with
  | nil => simp
  | cons first others => simp [stops first rfl]

theorem isExponentMark_of_isAsciiDigit {character : Char}
    (digit : isAsciiDigit character = true) : Decimal.isExponentMark character = false := by
  rcases Bool.eq_false_or_eq_true (Decimal.isExponentMark character) with mark | other
  · unfold Decimal.isExponentMark at mark
    rcases Bool.or_eq_true _ _ ▸ mark with lower | upper
    · rw [eq_of_beq lower] at digit
      contradiction
    · rw [eq_of_beq upper] at digit
      contradiction
  · exact other

namespace Decimal

theorem natural?_eq {text : List Char} (digits : AllDigits text) (nonempty : text ≠ []) :
    natural? text = some (digitsValue text) := by
  unfold natural?
  rw [if_neg (by simpa using nonempty), if_pos (List.all_eq_true.mpr digits)]

theorem allDigits_of_natural? {text : List Char} {found : Nat} (read : natural? text = some found) :
    AllDigits text ∧ text ≠ [] := by
  unfold natural? at read
  split at read
  next => cases read
  next present =>
    split at read
    next digits => exact ⟨List.all_eq_true.mp digits, by simpa using present⟩
    next => cases read

/-- The integer with a given sign. -/
def signed (negative : Bool) (size : Nat) : Int := if negative then -(size : Int) else size

/-- The sign in front of a number: only a minus is written. -/
def signText (negative : Bool) : List Char := if negative then ['-'] else []

theorem integer?_signed (negative : Bool) {text : List Char} (digits : AllDigits text)
    (nonempty : text ≠ []) :
    integer? (signText negative ++ text) = some (signed negative (digitsValue text)) := by
  cases negative with
  | true =>
    simp [signText, integer?, natural?_eq digits nonempty, signed]
  | false =>
    change integer? text = some (digitsValue text : Int)
    unfold integer?
    split
    next rest => exact absurd (digits '-' (by simp)) (by decide)
    next rest => exact absurd (digits '+' (by simp)) (by decide)
    next => rw [natural?_eq digits nonempty]; rfl

/-- Without a mark of an exponent a number is all mantissa. -/
theorem parts?_of_unmarked {text : List Char}
    (unmarked : ∀ character ∈ text, isExponentMark character = false) :
    parts? text = (mantissa? text).map fun mantissa => (mantissa, 0) := by
  have all : ∀ character ∈ text, (!isExponentMark character) = true := fun character member => by
    rw [unmarked character member]
    rfl
  rw [parts?, List.takeWhile_eq_self_iff.mpr all, List.dropWhile_eq_nil_iff.mpr all]
  cases mantissa? text <;> rfl

/-- A whole number is its digits and a sign. -/
theorem unmarked_of_integer? {text : List Char} {found : Int} (read : integer? text = some found) :
    ∀ character ∈ text, isExponentMark character = false ∧ character ≠ '.' := by
  have digit {character : Char} (isDigit : isAsciiDigit character = true) :
      isExponentMark character = false ∧ character ≠ '.' :=
    ⟨isExponentMark_of_isAsciiDigit isDigit, fun same => absurd (same ▸ isDigit) (by decide)⟩
  unfold integer? at read
  split at read
  all_goals
    obtain ⟨_, read, _⟩ := Option.map_eq_some_iff.mp read
    obtain ⟨size, read, _⟩ := Option.bind_eq_some_iff.mp read
    have digits := fun character within => digit ((allDigits_of_natural? read).1 character within)
    first
    | exact List.forall_mem_cons.mpr ⟨by decide, digits⟩
    | exact digits

/-- A whole number is read as itself where a decimal number may stand. -/
theorem ofNumeral?_of_integer? {text : List Char} {found : Int} (read : integer? text = some found) :
    ofNumeral? text = some ⟨found, 0⟩ := by
  have plain := unmarked_of_integer? read
  have pointless : ∀ character ∈ text, (character != '.') = true :=
    fun character within => bne_iff_ne.mpr (plain character within).2
  have mantissa : mantissa? text = some ⟨found, 0⟩ := by
    rw [mantissa?, List.takeWhile_eq_self_iff.mpr pointless, List.dropWhile_eq_nil_iff.mpr pointless]
    simp [read]
  rw [ofNumeral?, parts?_of_unmarked fun character within => (plain character within).1, mantissa]
  rfl

theorem integer?_exponentText (power : Int) :
    integer? (NumberStyle.json.exponentText power) = some power := by
  have digits := AllDigits.digits power.natAbs
  have nonempty : Decimal.digits power.natAbs ≠ [] := Nat.toDigits_ne_nil
  unfold NumberStyle.exponentText
  simp only [NumberStyle.json, Bool.false_and, Bool.false_eq_true, if_false]
  split
  next negative => simp [integer?, natural?_eq digits nonempty, abs_of_neg negative]
  next nonnegative => simp [integer?, natural?_eq digits nonempty, Int.not_lt.mp nonnegative]

end Decimal

/-- A number taken apart into the pieces that are written one after the other.  There is no point
when the fraction is empty. -/
structure Numeral where
  negative : Bool
  whole : List Char
  fraction : List Char
  power : Option Int

namespace Numeral

def fractionText (numeral : Numeral) : List Char :=
  if numeral.fraction = [] then [] else '.' :: numeral.fraction

def powerText (numeral : Numeral) : List Char :=
  match numeral.power with
  | none => []
  | some power => 'e' :: NumberStyle.json.exponentText power

def text (numeral : Numeral) : List Char :=
  Decimal.signText numeral.negative ++ numeral.whole ++ numeral.fractionText ++ numeral.powerText

def value (numeral : Numeral) : Decimal :=
  ⟨Decimal.signed numeral.negative (Decimal.digitsValue (numeral.whole ++ numeral.fraction)),
    numeral.power.getD 0 - numeral.fraction.length⟩

/-- The pieces are digits, and no digit follows a leading zero of the whole part. -/
structure WellFormed (numeral : Numeral) : Prop where
  whole : AllDigits numeral.whole
  nonempty : numeral.whole ≠ []
  leading : numeral.whole = ['0'] ∨ numeral.whole.head? ≠ some '0'
  fraction : AllDigits numeral.fraction

namespace WellFormed

variable {numeral : Numeral}

theorem signedWhole_ne_point (wellFormed : WellFormed numeral) {character : Char}
    (within : character ∈ Decimal.signText numeral.negative ++ numeral.whole) :
    (character != '.') = true := by
  rcases List.mem_append.mp within with sign | digit
  · unfold Decimal.signText at sign
    split at sign
    · rw [List.mem_singleton.mp sign]
      rfl
    · contradiction
  · have found := wellFormed.whole character digit
    apply bne_iff_ne.mpr
    rintro rfl
    contradiction

theorem mantissa_ne_mark (wellFormed : WellFormed numeral) {character : Char}
    (within : character ∈
      Decimal.signText numeral.negative ++ numeral.whole ++ numeral.fractionText) :
    (!Decimal.isExponentMark character) = true := by
  rcases List.mem_append.mp within with front | back
  · rcases List.mem_append.mp front with sign | digit
    · unfold Decimal.signText at sign
      split at sign
      · rw [List.mem_singleton.mp sign]
        rfl
      · contradiction
    · rw [isExponentMark_of_isAsciiDigit (wellFormed.whole character digit)]
      rfl
  · unfold fractionText at back
    split at back
    · contradiction
    · rcases List.mem_cons.mp back with rfl | digit
      · rfl
      · rw [isExponentMark_of_isAsciiDigit (wellFormed.fraction character digit)]
        rfl

theorem mantissa?_eq (wellFormed : WellFormed numeral) :
    Decimal.mantissa? (Decimal.signText numeral.negative ++ numeral.whole ++
      numeral.fractionText) = some ⟨numeral.value.coefficient, -numeral.fraction.length⟩ := by
  have front : ∀ character ∈ Decimal.signText numeral.negative ++ numeral.whole,
      (character != '.') = true := fun _ => wellFormed.signedWhole_ne_point
  have digits := wellFormed.whole.append wellFormed.fraction
  have nonempty : numeral.whole ++ numeral.fraction ≠ [] := by simp [wellFormed.nonempty]
  have read := Decimal.integer?_signed numeral.negative digits nonempty
  unfold Decimal.mantissa?
  rw [List.takeWhile_append_of_pos front, List.dropWhile_append_of_pos front]
  unfold fractionText
  split
  next absent =>
    rw [absent, List.append_nil] at read
    simp [read, value, absent]
  next present =>
    have single : '.' ∉ numeral.fraction := fun within =>
      absurd (wellFormed.fraction '.' within) (by decide)
    simp [single, read, value]

/-- A numeral is read as its value. -/
theorem ofNumeral?_text (wellFormed : WellFormed numeral) :
    Decimal.ofNumeral? numeral.text = some numeral.value := by
  have front : ∀ character ∈ Decimal.signText numeral.negative ++ numeral.whole ++
      numeral.fractionText, (!Decimal.isExponentMark character) = true :=
    fun _ => wellFormed.mantissa_ne_mark
  have none : numeral.powerText.takeWhile (fun character => !Decimal.isExponentMark character) =
      [] := by
    unfold powerText
    split <;> rfl
  have all : numeral.powerText.dropWhile (fun character => !Decimal.isExponentMark character) =
      numeral.powerText := by
    unfold powerText
    split <;> rfl
  unfold Decimal.ofNumeral? Decimal.parts? text
  rw [List.takeWhile_append_of_pos front, List.dropWhile_append_of_pos front, none, all,
    List.append_nil, wellFormed.mantissa?_eq]
  unfold powerText
  cases given : numeral.power with
  | none => simp [value, given]
  | some power =>
    simp [Decimal.integer?_exponentText, value, given]
    omega

end WellFormed

end Numeral

namespace Json

/-- What follows a value in a document: its end, or the mark after an item or a member. -/
abbrev Closes (rest : List Char) : Prop :=
  ∀ character ∈ rest.head?, character = ',' ∨ character = ']' ∨ character = '\x7d'

theorem Closes.noDigitNext {rest : List Char} (closes : Closes rest) : NoDigitNext rest := by
  intro character next
  rcases closes character next with rfl | rfl | rfl <;> rfl

theorem digits_append {text rest : List Char} (all : AllDigits text) (nonempty : text ≠ [])
    (stops : NoDigitNext rest) : digits (text ++ rest) = .ok (text, rest) := by
  unfold digits
  rw [takeWhile_isAsciiDigit all stops, dropWhile_isAsciiDigit all stops]
  cases text with
  | nil => exact absurd rfl nonempty
  | cons first others => rfl

end Json

namespace Numeral.WellFormed

open Json

variable {numeral : Numeral}

theorem wholePart_append (wellFormed : WellFormed numeral) {rest : List Char}
    (stops : NoDigitNext rest) : wholePart (numeral.whole ++ rest) = .ok (numeral.whole, rest) := by
  rcases wellFormed.leading with zero | leading
  · rw [zero]
    rfl
  · unfold wholePart
    split
    next others start =>
      exfalso
      apply leading
      have first := congrArg List.head? start
      rwa [List.head?_append_of_ne_nil _ wellFormed.nonempty] at first
    next => exact digits_append wellFormed.whole wellFormed.nonempty stops

theorem fractionPart_append (wellFormed : WellFormed numeral) {rest : List Char}
    (stops : NoDigitNext rest) (ends : rest.head? ≠ some '.') :
    fractionPart (numeral.fractionText ++ rest) = .ok (numeral.fractionText, rest) := by
  unfold fractionText
  split
  · unfold fractionPart
    split
    next others start => exact absurd (congrArg List.head? start) ends
    next => rfl
  next present =>
    simp [fractionPart, digits_append wellFormed.fraction present stops, Except.map]

theorem exponentPart_append (numeral : Numeral) {rest : List Char} (closes : Closes rest) :
    exponentPart (numeral.powerText ++ rest) = .ok (numeral.powerText, rest) := by
  unfold powerText
  cases numeral.power with
  | none =>
    cases rest with
    | nil => rfl
    | cons first others =>
      rcases closes first rfl with rfl | rfl | rfl <;> cases others <;> rfl
  | some power =>
    have read := digits_append (AllDigits.digits power.natAbs) Nat.toDigits_ne_nil
      closes.noDigitNext
    simp only [NumberStyle.exponentText, NumberStyle.json, Bool.false_and, Bool.false_eq_true,
      if_false, List.cons_append]
    split
    · simp [exponentPart, read, Except.map]
    · simp [exponentPart, read, Except.map]

/-- The reader of documents takes a numeral in as a whole. -/
theorem readNumber_append (wellFormed : WellFormed numeral) {rest : List Char}
    (closes : Closes rest) :
    readNumber (numeral.text ++ rest) = .ok (String.ofList numeral.text, rest) := by
  have afterFraction : NoDigitNext (numeral.powerText ++ rest) := by
    unfold powerText
    split
    · exact closes.noDigitNext
    · rintro _ ⟨⟩
      rfl
  have noPoint : (numeral.powerText ++ rest).head? ≠ some '.' := by
    unfold powerText
    split
    · intro point
      rcases closes '.' point with same | same | same <;> contradiction
    · simp
  have afterWhole : NoDigitNext (numeral.fractionText ++ (numeral.powerText ++ rest)) := by
    unfold fractionText
    split
    · exact afterFraction
    · rintro _ ⟨⟩
      rfl
  have whole := wellFormed.wholePart_append afterWhole
  have fraction := wellFormed.fractionPart_append afterFraction noPoint
  have power := exponentPart_append numeral closes
  unfold readNumber text
  cases sign : numeral.negative with
  | true =>
    simp [Decimal.signText, whole, fraction, power, bind, Except.bind, pure, Except.pure]
  | false =>
    have first : (numeral.whole ++ (numeral.fractionText ++ (numeral.powerText ++ rest))).head? ≠
        some '-' := by
      rw [List.head?_append_of_ne_nil _ wellFormed.nonempty]
      intro minus
      exact absurd (wellFormed.whole '-' (List.mem_of_mem_head? minus)) (by decide)
    simp only [Decimal.signText, Bool.false_eq_true, if_false, List.nil_append, List.append_assoc]
    split
    next others start => exact absurd (congrArg List.head? start) first
    next => simp [whole, fraction, power, bind, Except.bind, pure, Except.pure]

end Numeral.WellFormed

namespace NumberStyle

/-- Digits without superfluous zeros in front. -/
structure Significant (digits : List Char) (exponent : Int) : Prop where
  all : AllDigits digits
  nonempty : digits ≠ []
  leading : (digits = ['0'] ∧ exponent = 0) ∨ digits.head? ≠ some '0'

/-- A text is a numeral with the value of the digits, up to zeros at its end. -/
def Carries (negative : Bool) (digits : List Char) (exponent : Int) (text : List Char) : Prop :=
  ∃ numeral : Numeral, numeral.WellFormed ∧ numeral.text = text ∧
    ∃ zeros : Nat,
      numeral.value = ⟨Decimal.signed negative (Decimal.digitsValue digits * 10 ^ zeros),
        exponent - (digits.length - 1) - zeros⟩

variable {digits : List Char} {exponent : Int}

theorem carries_scientific (negative : Bool) (significant : Significant digits exponent) :
    Carries negative digits exponent
      (Decimal.signText negative ++ json.scientific digits exponent) := by
  obtain ⟨all, nonempty, leading⟩ := significant
  obtain ⟨first, rest, rfl⟩ := List.exists_cons_of_ne_nil nonempty
  refine ⟨⟨negative, [first], rest, some exponent⟩, ⟨?_, by simp, ?_, ?_⟩, ?_, 0, ?_⟩
  · exact fun character within => all character (by simp_all)
  · rcases leading with ⟨zero, _⟩ | other
    · exact .inl (by simp_all)
    · exact .inr (by simpa using other)
  · exact fun character within => all character (by simp_all)
  · cases rest <;> simp [Numeral.text, Numeral.fractionText, Numeral.powerText, scientific] <;> rfl
  · simp [Numeral.value]

theorem carries_positional (negative : Bool) (significant : Significant digits exponent) :
    Carries negative digits exponent
      (Decimal.signText negative ++ json.positional digits exponent) := by
  obtain ⟨all, nonempty, leading⟩ := significant
  unfold positional
  split
  next n =>
    -- All digits stand behind the point.
    refine ⟨⟨negative, ['0'], List.replicate n '0' ++ digits, none⟩, ⟨?_, by simp, ?_, ?_⟩, ?_, 0, ?_⟩
    · exact AllDigits.zeros 1
    · exact .inl rfl
    · exact (AllDigits.zeros n).append all
    · simp [Numeral.text, Numeral.fractionText, Numeral.powerText, nonempty]
    · have value : Decimal.digitsValue ('0' :: (List.replicate n '0' ++ digits)) =
          Decimal.digitsValue digits := by
        rw [Decimal.digitsValue_eq, Nat.ofDigitChars_cons, Nat.ofDigitChars_append,
          Nat.ofDigitChars_replicate_zero]
        simp [Decimal.digitsValue_eq]
      simp [Numeral.value, value]
      omega
  next n =>
    split
    next short =>
      -- The digits and the zeros after them stand before the point.
      refine ⟨⟨negative, digits ++ List.replicate (n + 1 - digits.length) '0', [], none⟩,
        ⟨?_, by simp [nonempty], ?_, by simp [AllDigits]⟩, ?_, n + 1 - digits.length, ?_⟩
      · exact all.append (AllDigits.zeros _)
      · rcases leading with ⟨zero, start⟩ | other
        · exact .inl (by simp_all)
        · exact .inr (by rwa [List.head?_append_of_ne_nil _ nonempty])
      · simp [Numeral.text, Numeral.fractionText, Numeral.powerText, json]
      · simp [Numeral.value, Decimal.digitsValue_append_zeros]
        omega
    next long =>
      -- The point stands between the digits.
      refine ⟨⟨negative, digits.take (n + 1), digits.drop (n + 1), none⟩, ⟨?_, ?_, ?_, ?_⟩, ?_, 0, ?_⟩
      · exact fun character within => all character (List.mem_of_mem_take within)
      · simp [nonempty]
      · rcases leading with ⟨zero, start⟩ | other
        · exact absurd (by simp [zero]) long
        · exact .inr (by simpa [List.head?_take] using other)
      · exact fun character within => all character (List.mem_of_mem_drop within)
      · have present : digits.drop (n + 1) ≠ [] := by simp; omega
        simp [Numeral.text, Numeral.fractionText, Numeral.powerText, present]
      · simp [Numeral.value]
        omega

theorem carries_write (negative : Bool) (significant : Significant digits exponent) :
    Carries negative digits exponent (json.write ⟨negative, digits, exponent⟩).toList := by
  have signed (body : List Char) :
      (if negative then '-' :: body else body) = Decimal.signText negative ++ body := by
    cases negative <;> rfl
  unfold write
  simp only [String.toList_ofList, signed]
  split
  · exact carries_scientific negative significant
  · exact carries_positional negative significant

end NumberStyle

namespace Decimal

theorem head?_digits_ne_zero {n : Nat} (positive : 0 < n) : (digits n).head? ≠ some '0' := by
  induction n using Nat.strongRecOn with
  | ind n inductionHypothesis =>
    unfold digits at *
    rw [Nat.toDigits_eq_if (by decide)]
    split
    next small =>
      intro zero
      have value := Nat.toNat_digitChar_sub_48_of_lt_ten small
      simp only [List.head?_cons, Option.some.injEq] at zero
      rw [zero] at value
      exact positive.ne value
    next large =>
      rw [List.head?_append_of_ne_nil _ Nat.toDigits_ne_nil]
      exact inductionHypothesis (n / 10) (by omega) (by omega)

theorem toList_integerText (n : Int) :
    (integerText n).toList = signText (decide (n < 0)) ++ digits n.natAbs := by
  unfold integerText signText
  rw [String.toList_ofList]
  by_cases negative : n < 0 <;> simp [negative]

/-- A whole number is written as a numeral. -/
theorem integerText_numeral (n : Int) :
    ∃ numeral : Numeral, numeral.WellFormed ∧ (integerText n).toList = numeral.text := by
  refine ⟨⟨decide (n < 0), digits n.natAbs, [], none⟩,
    ⟨AllDigits.digits _, Nat.toDigits_ne_nil, ?_, by simp [AllDigits]⟩, ?_⟩
  · rcases Nat.eq_zero_or_pos n.natAbs with zero | positive
    · rw [zero]
      exact .inl rfl
    · exact .inr (head?_digits_ne_zero positive)
  · simp [toList_integerText, Numeral.text, Numeral.fractionText, Numeral.powerText]

theorem integer?_integerText (n : Int) : integer? (integerText n).toList = some n := by
  rw [toList_integerText, integer?_signed _ (AllDigits.digits _) Nat.toDigits_ne_nil,
    digitsValue_digits]
  unfold signed
  by_cases negative : n < 0
  · simp [negative, abs_of_neg]
  · simp [negative, Int.not_lt.mp negative]

/-- The digits of a positive number can be written down. -/
theorem significant_dropTrailingZeros {n : Nat} (positive : 0 < n) (exponent : Int) :
    NumberStyle.Significant (Digits.dropTrailingZeros (digits n)) exponent := by
  have parts := dropTrailingZeros_append n
  have nonempty : Digits.dropTrailingZeros (digits n) ≠ [] := by
    intro empty
    have value := digitsValue_dropTrailingZeros n
    rw [empty] at value
    simp [digitsValue] at value
    omega
  refine ⟨?_, nonempty, .inr ?_⟩
  · intro character within
    apply AllDigits.digits n character
    rw [← parts]
    exact List.mem_append_left _ within
  · rw [← List.head?_append_of_ne_nil _ nonempty, parts]
    exact head?_digits_ne_zero positive

/-- However a number is written, it is converted alike. -/
theorem toFloat_written {n : Nat} (positive : 0 < n) (exponent : Int) (zeros : Nat) :
    toFloat ⟨(digitsValue (Digits.dropTrailingZeros (digits n)) * 10 ^ zeros : Nat),
      exponent + (digits n).length - 1 -
        ((Digits.dropTrailingZeros (digits n)).length - 1) - zeros⟩ = toFloat ⟨n, exponent⟩ := by
  generalize core : Digits.dropTrailingZeros (digits n) = kept
  have product : digitsValue kept * 10 ^ trailingZeros n = n :=
    core ▸ digitsValue_dropTrailingZeros n
  have length : kept.length + trailingZeros n = (digits n).length := by
    rw [← dropTrailingZeros_append n, core]
    simp
  have nonzero : (digitsValue kept : Int) ≠ 0 := by
    intro zero
    rw [Int.natCast_eq_zero.mp zero, Nat.zero_mul] at product
    omega
  calc toFloat ⟨(digitsValue kept * 10 ^ zeros : Nat),
        exponent + (digits n).length - 1 - (kept.length - 1) - zeros⟩
      = toFloat ⟨(digitsValue kept : Int) * 10 ^ zeros, exponent + trailingZeros n - zeros⟩ := by
        congr 2
        omega
    _ = toFloat ⟨digitsValue kept, exponent + trailingZeros n⟩ := by
        rw [toFloat_mul_tenPow nonzero]
        congr 2
        omega
    _ = toFloat ⟨(digitsValue kept : Int) * 10 ^ trailingZeros n, exponent⟩ :=
        (toFloat_mul_tenPow nonzero _ _).symm
    _ = toFloat ⟨n, exponent⟩ := by
        congr 2
        exact_mod_cast product

end Decimal

namespace Value

open Double

/-- A numeral whose value is converted to a number other than zero denotes that number. -/
theorem finite?_eq {literal : String} {number : Decimal} {significand : Nat} {power : Int}
    (canonical : Canonical significand power) {sign : Float.Model.UnpackedFloat.Sign}
    (read : Decimal.ofNumeral? literal.toList = some number)
    (nearest : number.toFloat = canonical.toFloat sign) :
    finite? literal = some (canonical.toFloat sign) := by
  unfold finite?
  simp [read, nearest, canonical.isFinite_toFloat, canonical.toFloat_beq_zero]

end Value

namespace NumberStyle

open Double

/-- The digits of a positive decimal are written as a numeral that is converted like it. -/
theorem write_ofDecimal (negative : Bool) {coefficient : Nat} (positive : 0 < coefficient)
    (exponent : Int) :
    ∃ numeral : Numeral, numeral.WellFormed ∧
      (json.write (Digits.ofDecimal negative ⟨coefficient, exponent⟩)).toList = numeral.text ∧
      numeral.value.toFloat = if negative then -Decimal.toFloat ⟨coefficient, exponent⟩
        else Decimal.toFloat ⟨coefficient, exponent⟩ := by
  let kept := Digits.dropTrailingZeros (Decimal.digits coefficient)
  have same (zeros : Nat) := Decimal.toFloat_written positive exponent zeros
  have nonzero (zeros : Nat) : 0 < Decimal.digitsValue kept * 10 ^ zeros := by
    have product := Decimal.digitsValue_dropTrailingZeros coefficient
    have core : 0 < Decimal.digitsValue kept :=
      Nat.pos_of_mul_pos_right (product ▸ positive)
    positivity
  obtain ⟨numeral, wellFormed, text, zeros, value⟩ := carries_write negative
    (Decimal.significant_dropTrailingZeros positive
      (exponent + (Decimal.digits coefficient).length - 1))
  refine ⟨numeral, wellFormed, text.symm, ?_⟩
  rw [value]
  cases negative with
  | false => exact same zeros
  | true =>
    change Decimal.toFloat ⟨-((Decimal.digitsValue kept * 10 ^ zeros : Nat) : Int), _⟩ = _
    rw [Decimal.toFloat_neg (nonzero zeros)]
    exact congrArg _ (same zeros)

/-- A finite double is written as a numeral that is read back as it. -/
theorem float_numeral {number : Float} (finite : number.isFinite = true) :
    (∃ numeral : Numeral, numeral.WellFormed ∧ (json.float number).toList = numeral.text) ∧
      Value.finite? (json.float number) = some number := by
  obtain ⟨digits, found, describes⟩ := Digits.ofFloat?_describes finite
  unfold float
  rw [found]
  cases describes with
  | zero =>
    refine ⟨⟨⟨false, ['0'], [], none⟩, ⟨AllDigits.zeros 1, by simp, .inl rfl, by simp [AllDigits]⟩,
      rfl⟩, rfl⟩
  | negativeZero =>
    refine ⟨⟨⟨true, ['0'], [], none⟩, ⟨AllDigits.zeros 1, by simp, .inl rfl, by simp [AllDigits]⟩,
      rfl⟩, rfl⟩
  | positive canonical nonzero reads =>
    obtain ⟨numeral, wellFormed, text, value⟩ := write_ofDecimal false nonzero _
    refine ⟨⟨numeral, wellFormed, text⟩, ?_⟩
    have read := wellFormed.ofNumeral?_text
    rw [← text] at read
    exact Value.finite?_eq canonical read (value.trans reads)
  | negative canonical nonzero reads =>
    obtain ⟨numeral, wellFormed, text, value⟩ := write_ofDecimal true nonzero _
    refine ⟨⟨numeral, wellFormed, text⟩, ?_⟩
    have read := wellFormed.ofNumeral?_text
    rw [← text] at read
    refine Value.finite?_eq canonical read (value.trans ?_)
    rw [reads]
    exact canonical.neg_toFloat

end NumberStyle

end StepQuery
