import StepQuery.Casting
import StepQuery.Proofs.Attempt
import StepQuery.Proofs.Text.Trimming
import StepQuery.Proofs.Number.Numeral

/-!
The ways in which a text is taken for a number: cast to the type of a column, coerced as a limit, guessed
as a bare literal.  All of them read one decimal number, or none.  They part where it is whole: a cast to
integers wants it so, coercion makes it an integer whenever it is, and a guess does so only if the text
does not look like a fraction.  The words that a guess takes for truth values and for null are no numbers,
because a number has a digit.
-/

namespace StepQuery

open Text (isAsciiDigit)

namespace Decimal

variable {text : List Char}

theorem exists_digit_of_natural? {found : Nat} (read : natural? text = some found) :
    ∃ character ∈ text, isAsciiDigit character = true := by
  obtain ⟨digits, present⟩ := allDigits_of_natural? read
  obtain ⟨first, rest, rfl⟩ := List.exists_cons_of_ne_nil present
  exact ⟨first, List.mem_cons_self, digits first List.mem_cons_self⟩

theorem exists_digit_of_integer? {found : Int} (read : integer? text = some found) :
    ∃ character ∈ text, isAsciiDigit character = true := by
  unfold integer? at read
  split at read
  all_goals
    obtain ⟨_, read, _⟩ := Option.map_eq_some_iff.mp read
    obtain ⟨size, read, _⟩ := Option.bind_eq_some_iff.mp read
    obtain ⟨digit, within, isDigit⟩ := exists_digit_of_natural? read
    first
    | exact ⟨digit, within, isDigit⟩
    | exact ⟨digit, List.mem_cons_of_mem _ within, isDigit⟩

theorem exists_digit_of_mantissa? {found : Decimal} (read : mantissa? text = some found) :
    ∃ character ∈ text, isAsciiDigit character = true := by
  have parts := List.takeWhile_append_dropWhile (p := (· != '.')) (l := text)
  unfold mantissa? at read
  split at read
  next =>
    obtain ⟨size, read, _⟩ := Option.map_eq_some_iff.mp read
    obtain ⟨digit, within, isDigit⟩ := exists_digit_of_integer? read
    exact ⟨digit, (List.takeWhile_prefix _).subset within, isDigit⟩
  next point fraction behind =>
    rw [behind] at parts
    split at read
    next => cases read
    next =>
      obtain ⟨size, read, _⟩ := Option.map_eq_some_iff.mp read
      obtain ⟨digit, within, isDigit⟩ := exists_digit_of_integer? read
      refine ⟨digit, ?_, isDigit⟩
      rw [← parts]
      rw [List.mem_append] at within ⊢
      exact within.imp_right (List.mem_cons_of_mem point)

/-- A text that is read as a number has a digit. -/
theorem exists_digit_of_ofText? {found : Decimal} (read : ofText? text = some found) :
    ∃ character ∈ text, isAsciiDigit character = true := by
  obtain ⟨⟨number, power⟩, parts, _⟩ := Option.bind_eq_some_iff.mp read
  obtain ⟨mantissa, front, _⟩ := Option.bind_eq_some_iff.mp parts
  obtain ⟨digit, within, isDigit⟩ := exists_digit_of_mantissa? front
  exact ⟨digit, (List.takeWhile_prefix _).subset within, isDigit⟩

end Decimal

/-- Whether a value is a number of any kind. -/
def Value.IsNumber : Value → Prop
  | .int _ | .uint _ | .single _ | .double _ | .decimal _ => True
  | _ => False

namespace Casting

variable {text : String}

/-- A word without digits is not what a text with a digit is lowered to. -/
theorem lower_ne_of_digit {written : List Char} {digit : Char} (within : digit ∈ written)
    (isDigit : isAsciiDigit digit = true) (word : String)
    (plain : word.toList.any isAsciiDigit = false) :
    (Text.lower (String.ofList written) == word) = false := by
  rw [beq_eq_false_iff_ne]
  rintro rfl
  have kept : Text.lowerAscii digit = digit := by
    have small : digit ≤ '9' := by simpa using (Bool.and_eq_true_iff.mp isDigit).2
    have below : ¬ 'A' ≤ digit := fun above =>
      absurd (Char.le_trans above small) (by decide : ¬ 'A' ≤ '9')
    simp [Text.lowerAscii, below]
  have member : digit ∈ (Text.lower (String.ofList written)).toList := by
    rw [Text.lower, String.toList_ofList, String.toList_ofList]
    exact List.mem_map.mpr ⟨digit, within, kept⟩
  exact List.any_eq_false.mp plain digit member isDigit

section Text

variable {decimal : Decimal}

theorem number_of_decimal? (read : decimal? text = some decimal) :
    number (.text text) =
      .ok (if decimal.isInteger then .int decimal.integerPart else .double decimal.toFloat) := by
  rw [number, read]
  dsimp only
  split <;> rfl

theorem cast_float_of_decimal? (read : decimal? text = some decimal) :
    cast text .float = .ok (.double decimal.toFloat) := by
  rw [cast, read]

theorem cast_integer_of_decimal? (read : decimal? text = some decimal) :
    cast text .integer =
      if decimal.isInteger then .ok (.int decimal.integerPart)
      else Attempt.fail (.badInteger text) := by
  rw [cast, read]

theorem infer_of_decimal? (read : decimal? text = some decimal) :
    infer text =
      if decimal.isInteger && !isFractional (Text.trim text.toList) then .int decimal.integerPart
      else .double decimal.toFloat := by
  obtain ⟨digit, within, isDigit⟩ := Decimal.exists_digit_of_ofText? read
  have yes := lower_ne_of_digit within isDigit "true" (by decide)
  have no := lower_ne_of_digit within isDigit "false" (by decide)
  have none := lower_ne_of_digit within isDigit "null" (by decide)
  rw [decimal?] at read
  simp only [infer, yes, no, none, read, Bool.false_eq_true, if_false]

/-- No route finds a number in a text that is none. -/
theorem refused_of_decimal? (unread : decimal? text = none) :
    (∀ value, number (.text text) ≠ .ok value) ∧ (∀ value, cast text .float ≠ .ok value) ∧
      (∀ value, cast text .integer ≠ .ok value) ∧ ¬(infer text).IsNumber := by
  refine ⟨fun value => ?_, fun value => ?_, fun value => ?_, ?_⟩
  · rw [number, unread]
    exact Attempt.fail_ne_ok
  · rw [cast, unread]
    exact Attempt.fail_ne_ok
  · rw [cast, unread]
    exact Attempt.fail_ne_ok
  · rw [decimal?] at unread
    simp only [infer, unread]
    repeat' split
    all_goals exact id

theorem exists_mark_of_isFractional (fractional : isFractional (Text.trim text.toList) = true) :
    ∃ character ∈ text.toList, character = '.' ∨ character = 'e' ∨ character = 'E' := by
  obtain ⟨before, after, whole, _⟩ := Text.exists_eq_append_trim text.toList
  obtain ⟨mark, within, marks⟩ := List.any_eq_true.mp fractional
  refine ⟨mark, ?_, by simpa [Decimal.isExponentMark] using marks⟩
  rw [whole]
  exact List.mem_append_left _ (List.mem_append_right _ within)

end Text

/-- The routes from a text to a number agree.  They find a number in the same texts; casting to integers
and coercing find the same integers; an integer that is guessed is the one that coercing finds; where
coercing finds a double all others that give a number give that double, and casting to integers fails; and
a double is guessed for the text of an integer only where a point or an exponent is written. -/
theorem number_routes_agree (text : String) :
    ((∃ value, number (.text text) = .ok value) ↔ ∃ value, cast text .float = .ok value) ∧
    ((∃ value, cast text .float = .ok value) ↔ (infer text).IsNumber) ∧
    (∀ value, cast text .integer = .ok value ↔
      ∃ whole, value = .int whole ∧ number (.text text) = .ok (.int whole)) ∧
    (∀ whole, infer text = .int whole → number (.text text) = .ok (.int whole)) ∧
    (∀ double, number (.text text) = .ok (.double double) →
      cast text .float = .ok (.double double) ∧ infer text = .double double ∧
        ∃ failure, cast text .integer = .error failure) ∧
    ∀ double whole, infer text = .double double → number (.text text) = .ok (.int whole) →
      ∃ character ∈ text.toList, character = '.' ∨ character = 'e' ∨ character = 'E' := by
  rcases read : decimal? text with _ | decimal
  · obtain ⟨coerced, float, integer, guessed⟩ := refused_of_decimal? read
    have other : ∀ whole, infer text ≠ .int whole := fun whole same => by
      rw [same] at guessed
      exact guessed trivial
    simp [coerced, float, integer, guessed, other]
  · have coerced := number_of_decimal? read
    have float := cast_float_of_decimal? read
    have integer := cast_integer_of_decimal? read
    have guessed := infer_of_decimal? read
    rw [coerced, float, integer, guessed]
    cases whole : decimal.isInteger with
    | true =>
      cases fractional : isFractional (Text.trim text.toList) with
      | true =>
        have marked := exists_mark_of_isFractional fractional
        simp [marked, Value.IsNumber, eq_comm]
      | false => simp [Value.IsNumber, eq_comm]
    | false => simp [Value.IsNumber, Attempt.fail]

end Casting

end StepQuery
