import StepQuery.Proofs.Date.Evaluation
import StepQuery.Query.Arithmetic

/-!
What the expression of a formula computes, with exact numbers.  A calculation is broken off where a
number is divided by zero, where the remainder of such a division is asked for, and where an operator
meets something that it does not take.  Of a quotient the expression tests the divisor first, and what a
test leaves out is never looked at.  So an expression comes to the value of its formula, and only
remainders can break it off.
-/

namespace StepQuery

/-- A number, or null. -/
abbrev Amount := Option ℚ

/-- The number that a double is, if it is finite. -/
def Double.rational? (number : Float) : Option ℚ :=
  match number.toModel.unpack with
  | .zero _ => some 0
  | .finite .positive significand power _ => some (significand * 2 ^ power)
  | .finite .negative significand power _ => some (-(significand * 2 ^ power))
  | _ => none

example : Double.rational? 2.5 = some (5 / 2) := by decide +kernel

/-- Why a calculation is broken off. -/
inductive Breakdown where
  | divisionByZero
  | remainderByZero
  | refused
deriving DecidableEq

namespace Calculation

/-- What remains when a number is divided by another one, with the sign of the former. -/
def remainder (dividend divisor : ℚ) : ℚ := dividend - divisor * Outcome.whole (dividend / divisor)

example : remainder (-7) 3 = -1 := by decide +kernel

def ofAmount : Amount → Outcome
  | none => .nothing
  | some value => .number value

def amount : Outcome → Except Breakdown Amount
  | .nothing => .ok none
  | .number value => .ok (some value)
  | _ => .error .refused

/-- What an operator computes from two numbers. -/
def arithmetic? : String → Option (ℚ → ℚ → Except Breakdown ℚ)
  | "$add" => some fun first second => .ok (first + second)
  | "$subtract" => some fun first second => .ok (first - second)
  | "$multiply" => some fun first second => .ok (first * second)
  | "$divide" => some fun first second =>
    if second = 0 then .error .divisionByZero else .ok (first / second)
  | "$mod" => some fun first second =>
    if second = 0 then .error .remainderByZero else .ok (remainder first second)
  | _ => none

/-- Null with anything is null. -/
def combine (compute : ℚ → ℚ → Except Breakdown ℚ) : Amount → Amount → Except Breakdown Outcome
  | some first, some second => (compute first second).map .number
  | _, _ => .ok .nothing

/-- What an operator makes of arguments that have been calculated. -/
def operate : String → List Outcome → Except Breakdown Outcome
  | "$in", [item, .list items] =>
    .ok (.truth (items.any fun other => item.equals? other == some true))
  | operator, [first, second] =>
    match arithmetic? operator with
    | some compute => do combine compute (← amount first) (← amount second)
    | none => .error .refused
  | _, _ => .error .refused

section Calculate

variable (reach : String → Amount)

mutual

/-- What an expression comes to, given what the paths of a row reach. -/
def calculate : Value → Except Breakdown Outcome
  | .null => .ok .nothing
  | .int value => .ok (.number value.toInt)
  | .double value =>
    match Double.rational? value with
    | some exact => .ok (.number exact)
    | none => .error .refused
  | .text content =>
    match content.toList with
    | '$' :: path => .ok (ofAmount (reach (String.ofList path)))
    | _ => .ok (.text content)
  | .list items => do return .list (← calculateEach items)
  | .map [(operator, argument)] => apply operator argument
  | _ => .error .refused

/-- A condition has only that one of its branches calculated which its test selects. -/
def apply : String → Value → Except Breakdown Outcome
  | "$cond", .list [test, consequent, alternative] => do
    match ← calculate test with
    | .truth true => calculate consequent
    | .truth false => calculate alternative
    | _ => .error .refused
  | operator, .list items => do operate operator (← calculateEach items)
  | _, _ => .error .refused

def calculateEach : List Value → Except Breakdown (List Outcome)
  | [] => .ok []
  | item :: rest => do
    let first ← calculate item
    let others ← calculateEach rest
    return first :: others

end

/-- Calculating an expression involves calculating a part of it. -/
inductive Involves : Value → Value → Prop
  | self (expression : Value) : Involves expression expression
  | item {items : List Value} {item part : Value} (member : item ∈ items) (inner : Involves item part) :
    Involves (.list items) part
  | argument {operator : String} {argument part : Value} (eager : operator ≠ "$cond")
    (inner : Involves argument part) : Involves (.map [(operator, argument)]) part
  | test {test consequent alternative part : Value} (inner : Involves test part) :
    Involves (.map [("$cond", .list [test, consequent, alternative])]) part
  | consequent {test consequent alternative part : Value} (decided : calculate reach test = .ok (.truth true))
    (inner : Involves consequent part) :
    Involves (.map [("$cond", .list [test, consequent, alternative])]) part
  | alternative {test consequent alternative part : Value} (decided : calculate reach test = .ok (.truth false))
    (inner : Involves alternative part) :
    Involves (.map [("$cond", .list [test, consequent, alternative])]) part

end Calculate

section Forms

variable {reach : String → Amount}

@[simp]
theorem amount_ofAmount (held : Amount) : amount (ofAmount held) = .ok held := by
  cases held <;> rfl

section Equations

theorem calculate_null : calculate reach .null = .ok .nothing := rfl

theorem calculate_whole (value : Int64) :
    calculate reach (.int value) = .ok (.number value.toInt) := rfl

theorem calculate_text (content : String) :
    calculate reach (.text content) = (match content.toList with
      | '$' :: path => .ok (ofAmount (reach (String.ofList path)))
      | _ => .ok (.text content)) := rfl

theorem calculate_list (items : List Value) :
    calculate reach (.list items) = do return .list (← calculateEach reach items) := rfl

theorem calculate_operator (operator : String) (argument : Value) :
    calculate reach (.map [(operator, argument)]) = apply reach operator argument := rfl

theorem apply_cond (test consequent alternative : Value) :
    apply reach "$cond" (.list [test, consequent, alternative]) = (do
      match ← calculate reach test with
      | .truth true => calculate reach consequent
      | .truth false => calculate reach alternative
      | _ => .error .refused) := rfl

theorem calculateEach_nil : calculateEach reach [] = .ok [] := rfl

theorem calculateEach_cons (item : Value) (rest : List Value) :
    calculateEach reach (item :: rest) = (do
      let first ← calculate reach item
      let others ← calculateEach reach rest
      return first :: others) := rfl

end Equations

theorem calculate_int {value : Int} (fits : (Int64.ofInt value).toInt = value) :
    calculate reach (Term.int value).data = .ok (ofAmount (some value)) := by
  rw [Term.int, Term.data_constant, calculate_whole, fits]
  rfl

theorem calculate_column (name : String) :
    calculate reach (Term.column name).data = .ok (ofAmount (reach name)) := by
  have characters : (Term.path name).toList = '$' :: name.toList := by
    simp [Term.path]
  rw [Term.column, Term.text, Term.data_constant, calculate_text, characters]
  simp

theorem calculate_call {operator : String} (eager : operator ≠ "$cond") (first second : Term) :
    calculate reach (Term.call operator [first, second]).data = (do
      let left ← calculate reach first.data
      let right ← calculate reach second.data
      operate operator [left, right]) := by
  rw [Term.data_call, Term.dataOf_cons, Term.dataOf_cons, Term.dataOf_nil, calculate_operator, apply,
    calculateEach_cons, calculateEach_cons, calculateEach_nil]
  · cases calculate reach first.data with
    | error => rfl
    | ok left => cases calculate reach second.data <;> rfl
  · exact fun _ _ _ same _ => eager same

theorem calculate_cond (test consequent alternative : Term) :
    calculate reach (Term.cond test consequent alternative).data = (do
      match ← calculate reach test.data with
      | .truth true => calculate reach consequent.data
      | .truth false => calculate reach alternative.data
      | _ => .error .refused) := by
  rw [Term.cond, Term.data_call, Term.dataOf_cons, Term.dataOf_cons, Term.dataOf_cons, Term.dataOf_nil,
    calculate_operator, apply_cond]

/-- The test of a quotient: whether a divisor is zero or null. -/
theorem calculate_test {divisor : Term} {held : Amount}
    (found : calculate reach divisor.data = .ok (ofAmount held)) :
    calculate reach (Term.call "$in" [divisor, .array [Term.int 0, Term.null]]).data =
      .ok (.truth (decide (held = none ∨ held = some 0))) := by
  have list : calculate reach (Term.array [Term.int 0, Term.null]).data =
      .ok (.list [.number 0, .nothing]) := by
    have zero : calculate reach (Term.int 0).data = .ok (.number (0 : Int)) := calculate_int rfl
    rw [Int.cast_zero] at zero
    rw [Term.data_array, Term.dataOf_cons, Term.dataOf_cons, Term.dataOf_nil, calculate_list,
      calculateEach_cons, calculateEach_cons, calculateEach_nil, zero, Term.null, Term.data_constant,
      calculate_null]
    rfl
  rw [calculate_call (by decide), found, list]
  change operate "$in" [ofAmount held, .list [.number 0, .nothing]] = _
  cases held with
  | none => rfl
  | some value => simp [operate, ofAmount, Outcome.equals?, beq_eq_decide]

theorem operate_arithmetic {operator : String} {compute : ℚ → ℚ → Except Breakdown ℚ}
    (named : arithmetic? operator = some compute) (left right : Amount) :
    operate operator [ofAmount left, ofAmount right] = combine compute left right := by
  have other : operator ≠ "$in" := by
    rintro rfl
    cases named
  rw [operate, named]
  · simp only [amount_ofAmount]
    rfl
  · simp [other]

end Forms

/-- Where calculating an expression involves a quotient, the divisor is a number other than zero. -/
def IsGuarded (reach : String → Amount) (expression : Value) : Prop :=
  ∀ dividend divisor, Involves reach expression (.map [("$divide", .list [dividend, divisor])]) →
    ∃ value, value ≠ 0 ∧ calculate reach divisor = .ok (.number value)

section Guarded

variable {reach : String → Amount} {first second test consequent alternative : Term}

/-- A call involves a quotient by being one, or an argument of it does. -/
theorem isGuarded_call {operator : String} (eager : operator ≠ "$cond")
    (divided : operator ≠ "$divide" ∨
      ∃ value, value ≠ 0 ∧ calculate reach second.data = .ok (.number value))
    (former : IsGuarded reach first.data) (latter : IsGuarded reach second.data) :
    IsGuarded reach (Term.call operator [first, second]).data := by
  rw [Term.data_call, Term.dataOf_cons, Term.dataOf_cons, Term.dataOf_nil]
  intro dividend divisor involved
  cases involved with
  | self => exact divided.resolve_left (absurd rfl)
  | argument _ inner =>
    cases inner with
    | item member inner =>
      rcases List.mem_pair.mp member with rfl | rfl
      · exact former dividend divisor inner
      · exact latter dividend divisor inner

/-- Of the branches of a condition only the one counts that its test selects. -/
theorem isGuarded_cond (tested : IsGuarded reach test.data)
    (chosen : calculate reach test.data = .ok (.truth true) → IsGuarded reach consequent.data)
    (otherwise : calculate reach test.data = .ok (.truth false) → IsGuarded reach alternative.data) :
    IsGuarded reach (Term.cond test consequent alternative).data := by
  intro dividend divisor involved
  generalize whole : (Value.map [("$divide", .list [dividend, divisor])]) = part at involved
  rw [Term.cond, Term.data_call, Term.dataOf_cons, Term.dataOf_cons, Term.dataOf_cons, Term.dataOf_nil]
    at involved
  cases involved with
  | self => simp at whole
  | argument eager => exact absurd rfl eager
  | test inner => exact tested dividend divisor (whole ▸ inner)
  | consequent decided inner => exact chosen decided dividend divisor (whole ▸ inner)
  | alternative decided inner => exact otherwise decided dividend divisor (whole ▸ inner)

end Guarded

end Calculation

namespace Literal

def rational? : Literal → Option ℚ
  | .whole value => some value.toInt
  | .fraction value => Double.rational? value

end Literal

namespace Operator

/-- A quotient whose divisor is zero or null is null, and so is all else that is computed from null. -/
def amount : Operator → Amount → Amount → Amount
  | .add, left, right => Option.map₂ (· + ·) left right
  | .subtract, left, right => Option.map₂ (· - ·) left right
  | .multiply, left, right => Option.map₂ (· * ·) left right
  | .divide, left, right => if right = none ∨ right = some 0 then none else Option.map₂ (· / ·) left right
  | .remainder, left, right => Option.map₂ Calculation.remainder left right

end Operator

namespace Formula

/-- A formula of columns and of numbers that are finite. -/
def IsNumeric : Formula → Prop
  | .number _ literal => literal.rational?.isSome
  | .text .. => False
  | .column .. => True
  | .negate _ operand => operand.IsNumeric
  | .binary _ _ left right => left.IsNumeric ∧ right.IsNumeric

instance decidableIsNumeric : DecidablePred IsNumeric
  | .number _ literal => inferInstanceAs (Decidable (literal.rational?.isSome = true))
  | .text .. => .isFalse not_false
  | .column .. => .isTrue trivial
  | .negate _ operand => decidableIsNumeric operand
  | .binary _ _ left right =>
    @instDecidableAnd _ _ (decidableIsNumeric left) (decidableIsNumeric right)

variable (reach : String → Amount)

/-- The value of a formula on a row. -/
def amount : Formula → Amount
  | .number _ literal => literal.rational?
  | .text .. => none
  | .column _ name => reach name
  | .negate _ operand => (amount operand).map fun value => -value
  | .binary _ operator left right => operator.amount (amount left) (amount right)

/-- A number is divided by zero for its remainder.  Where the divisor of a quotient is zero or null, its
dividend does not matter. -/
def TakesRemainderByZero : Formula → Prop
  | .number .. | .text .. | .column .. => False
  | .negate _ operand => operand.TakesRemainderByZero
  | .binary _ .divide left right =>
    right.TakesRemainderByZero ∨
      amount reach right ≠ none ∧ amount reach right ≠ some 0 ∧ left.TakesRemainderByZero
  | .binary _ .remainder left right =>
    left.TakesRemainderByZero ∨ right.TakesRemainderByZero ∨
      amount reach left ≠ none ∧ amount reach right = some 0
  | .binary _ _ left right => left.TakesRemainderByZero ∨ right.TakesRemainderByZero

instance decidableTakesRemainderByZero : DecidablePred (TakesRemainderByZero reach)
  | .number .. | .text .. | .column .. => .isFalse not_false
  | .negate _ operand => decidableTakesRemainderByZero operand
  | .binary _ operator left right =>
    have := decidableTakesRemainderByZero left
    have := decidableTakesRemainderByZero right
    match operator with
    | .divide => inferInstanceAs (Decidable (_ ∨ _ ∧ _ ∧ _))
    | .remainder => inferInstanceAs (Decidable (_ ∨ _ ∨ _ ∧ _))
    | .add | .subtract | .multiply => inferInstanceAs (Decidable (_ ∨ _))

open Calculation (calculate ofAmount IsGuarded)

variable {reach}

section Ends

variable {first second : Term} {left right : Prop} {dividend divisor : Amount}

/-- A calculation comes to an amount, or is broken off for a remainder, as the case may be. -/
def Ends (calculated : Except Breakdown Outcome) (breaks : Prop) (value : Amount) : Prop :=
  breaks ∧ calculated = .error .remainderByZero ∨ ¬breaks ∧ calculated = .ok (ofAmount value)

theorem ends_ok (value : Amount) : Ends (.ok (ofAmount value)) False value := .inr ⟨not_false, rfl⟩

/-- An operator has both of its arguments calculated, and then it may break off itself. -/
theorem Ends.call {operator : String} {compute : ℚ → ℚ → Except Breakdown ℚ} {breaks : Prop}
    {value : Amount} (named : Calculation.arithmetic? operator = some compute)
    (former : Ends (calculate reach first.data) left dividend)
    (latter : Ends (calculate reach second.data) right divisor)
    (combined : Ends (Calculation.combine compute dividend divisor) breaks value) :
    Ends (calculate reach (Term.call operator [first, second]).data) (left ∨ right ∨ breaks) value := by
  have eager : operator ≠ "$cond" := by
    rintro rfl
    cases named
  rw [Calculation.calculate_call eager]
  rcases former with ⟨broken, failed⟩ | ⟨whole, found⟩
  · exact .inl ⟨.inl broken, by rw [failed]; rfl⟩
  · rw [found]
    rcases latter with ⟨broken, failed⟩ | ⟨sound, other⟩
    · exact .inl ⟨.inr (.inl broken), by rw [failed]; rfl⟩
    · rw [other]
      change Ends (Calculation.operate operator [ofAmount dividend, ofAmount divisor]) _ _
      rw [Calculation.operate_arithmetic named]
      simpa [Ends, whole, sound] using combined

theorem ends_combine_ok (compute : ℚ → ℚ → ℚ) (dividend divisor : Amount) :
    Ends (Calculation.combine (fun first second => .ok (compute first second)) dividend divisor) False
      (Option.map₂ compute dividend divisor) := by
  cases dividend <;> cases divisor <;> exact .inr ⟨not_false, rfl⟩

/-- An operator that takes all numbers breaks off only where one of its arguments does. -/
theorem Ends.total {operator : String} {compute : ℚ → ℚ → ℚ}
    (named : Calculation.arithmetic? operator = some fun first second => .ok (compute first second))
    (former : Ends (calculate reach first.data) left dividend)
    (latter : Ends (calculate reach second.data) right divisor) :
    Ends (calculate reach (Term.call operator [first, second]).data) (left ∨ right)
      (Option.map₂ compute dividend divisor) := by
  have called := former.call named latter (ends_combine_ok compute dividend divisor)
  rwa [or_false] at called

theorem ends_combine_remainder (dividend divisor : Amount) :
    Ends (Calculation.combine (fun first second =>
        if second = 0 then .error .remainderByZero else .ok (Calculation.remainder first second))
          dividend divisor)
      (dividend ≠ none ∧ divisor = some 0) (Option.map₂ Calculation.remainder dividend divisor) := by
  cases dividend with
  | none => exact .inr ⟨by simp, rfl⟩
  | some first =>
    cases divisor with
    | none => exact .inr ⟨by simp, rfl⟩
    | some second =>
      by_cases zero : second = 0
      · exact .inl ⟨by simp [zero], by simp [Calculation.combine, zero]; rfl⟩
      · exact .inr ⟨by simp [zero], by simp [Calculation.combine, zero]; rfl⟩

theorem ends_combine_quotient (dividend : Amount) (nonzero : divisor ≠ some 0) :
    Ends (Calculation.combine (fun first second =>
        if second = 0 then .error .divisionByZero else .ok (first / second)) dividend divisor)
      False (Option.map₂ (· / ·) dividend divisor) := by
  refine .inr ⟨not_false, ?_⟩
  cases dividend with
  | none => rfl
  | some first =>
    cases divisor with
    | none => rfl
    | some second =>
      have other : second ≠ 0 := fun zero => nonzero (congrArg some zero)
      simp only [Calculation.combine, if_neg other]
      rfl

/-- The divisor of a quotient is calculated for the test, and the quotient only if the divisor passes. -/
theorem ends_quotient (former : Ends (calculate reach first.data) left dividend)
    (latter : Ends (calculate reach second.data) right divisor) :
    Ends (calculate reach (operation .divide first second).data)
      (right ∨ divisor ≠ none ∧ divisor ≠ some 0 ∧ left) (Operator.divide.amount dividend divisor) := by
  rw [operation, Calculation.calculate_cond]
  by_cases broken : right
  · obtain ⟨_, failed⟩ | ⟨sound, _⟩ := latter
    · refine .inl ⟨.inl broken, ?_⟩
      rw [Calculation.calculate_call (by decide), failed]
      rfl
    · exact absurd broken sound
  · have found : calculate reach second.data = .ok (ofAmount divisor) := by
      obtain ⟨failed, _⟩ | ⟨_, found⟩ := latter
      · exact absurd failed broken
      · exact found
    rw [Calculation.calculate_test found]
    by_cases skipped : divisor = none ∨ divisor = some 0
    · rw [Operator.amount, if_pos skipped, decide_eq_true skipped]
      refine .inr ⟨?_, rfl⟩
      tauto
    · rw [not_or] at skipped
      have divided : Ends (calculate reach (Term.call "$divide" [first, second]).data)
          (left ∨ right ∨ False) (Option.map₂ (· / ·) dividend divisor) :=
        former.call rfl latter (ends_combine_quotient dividend skipped.2)
      have breaks : left ∨ right ∨ False ↔ right ∨ divisor ≠ none ∧ divisor ≠ some 0 ∧ left := by
        tauto
      rw [Operator.amount, if_neg (not_or.mpr skipped), decide_eq_false (not_or.mpr skipped), ← propext breaks]
      exact divided

end Ends

/-- The expression of a formula of numbers and columns comes to the value of the formula, unless a
remainder breaks it off. -/
theorem ends_toTerm {formula : Formula} (numeric : formula.IsNumeric) :
    Ends (calculate reach formula.toTerm.data) (formula.TakesRemainderByZero reach)
      (formula.amount reach) := by
  induction formula with
  | number span literal =>
    obtain ⟨exact, known⟩ := Option.isSome_iff_exists.mp numeric
    rw [toTerm, amount, known, Term.data_constant]
    cases literal with
    | whole value =>
      cases known
      rw [Literal.toValue, Calculation.calculate_whole]
      exact ends_ok (some (value.toInt : ℚ))
    | fraction value =>
      rw [Literal.toValue, calculate, ← Literal.rational?, known]
      exact ends_ok (some exact)
  | text => exact numeric.elim
  | column span name =>
    rw [toTerm, Calculation.calculate_column]
    exact ends_ok _
  | negate span operand inductionHypothesis =>
    have minusOne : Ends (calculate reach (Term.int (-1)).data) False (some (-1 : Int)) := by
      rw [Calculation.calculate_int rfl]
      exact ends_ok _
    have product : Ends (calculate reach (negate span operand).toTerm.data)
        (False ∨ operand.TakesRemainderByZero reach)
        (Option.map₂ (· * ·) (some ((-1 : Int) : ℚ)) (amount reach operand)) :=
      minusOne.total rfl (inductionHypothesis numeric)
    have negated : Option.map₂ (· * ·) (some ((-1 : Int) : ℚ)) (amount reach operand) =
        (amount reach operand).map fun value => -value := by
      cases amount reach operand <;> simp
    rw [negated, false_or] at product
    exact product
  | binary span operator left right former latter =>
    have first := former numeric.1
    have second := latter numeric.2
    rw [toTerm]
    cases operator with
    | divide => exact ends_quotient first second
    | remainder => exact first.call rfl second (ends_combine_remainder _ _)
    | add => exact first.total rfl second
    | subtract => exact first.total rfl second
    | multiply => exact first.total rfl second

/-- The alternative of a quotient is chosen only for a divisor that is a number other than zero. -/
theorem Ends.nonzero {divided : Term} {breaks : Prop} {value : Amount}
    (ends : Ends (calculate reach divided.data) breaks value)
    (tested : calculate reach (Term.call "$in" [divided, .array [Term.int 0, Term.null]]).data =
      .ok (.truth false)) :
    ∃ value, value ≠ 0 ∧ calculate reach divided.data = .ok (.number value) := by
  obtain ⟨_, failed⟩ | ⟨_, found⟩ := ends
  · rw [Calculation.calculate_call (by decide), failed] at tested
    cases tested
  · rw [Calculation.calculate_test found] at tested
    cases value with
    | none => simp at tested
    | some exact => exact ⟨exact, by simpa using tested, found⟩

theorem isGuarded_quotient {first second : Term} {breaks : Prop} {divisor : Amount}
    (ends : Ends (calculate reach second.data) breaks divisor)
    (former : IsGuarded reach first.data) (latter : IsGuarded reach second.data) :
    IsGuarded reach (operation .divide first second).data := by
  have listed : IsGuarded reach (Term.array [Term.int 0, Term.null]).data := by
    intro _ _ involved
    cases involved with
    | item member inner =>
      rcases List.mem_pair.mp member with rfl | rfl <;> cases inner
  refine Calculation.isGuarded_cond ?_ ?_ ?_
  · exact Calculation.isGuarded_call (by decide) (.inl (by decide)) latter listed
  · intro _ _ _ involved
    cases involved
  · intro tested
    exact Calculation.isGuarded_call (by decide) (.inr (ends.nonzero tested)) former latter

/-- No quotient of the expression of a formula is calculated whose divisor is zero. -/
theorem isGuarded_toTerm {formula : Formula} (numeric : formula.IsNumeric) :
    IsGuarded reach formula.toTerm.data := by
  induction formula with
  | number span literal =>
    rw [toTerm, Term.data_constant]
    intro _ _ involved
    cases literal <;> cases involved
  | text => exact numeric.elim
  | column =>
    intro _ _ involved
    cases involved
  | negate span operand inductionHypothesis =>
    refine Calculation.isGuarded_call (by decide) (.inl (by decide)) ?_ (inductionHypothesis numeric)
    intro _ _ involved
    cases involved
  | binary span operator left right former latter =>
    have first := former numeric.1
    have second := latter numeric.2
    cases operator with
    | divide => exact isGuarded_quotient (ends_toTerm numeric.2) first second
    | add | subtract | multiply | remainder =>
      exact Calculation.isGuarded_call (by decide) (.inl (by decide)) first second

end Formula

end StepQuery
