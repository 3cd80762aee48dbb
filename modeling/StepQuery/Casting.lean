import StepQuery.Failure

/-!
Casting text to the type of a column, and coercing loosely typed values to numbers.  A whole number
is kept to 64 bits.
-/

namespace StepQuery

/-- The types a text can be cast to.  Texts and objects stay as they are written. -/
inductive ColumnType where
  | text
  | integer
  | float
  | boolean
  | date
deriving DecidableEq, Repr

namespace ColumnType

/-- The type of a name; a name that is not known asks for no change. -/
def ofName (name : String) : ColumnType :=
  if name == "integer" then .integer
  else if name == "float" then .float
  else if name == "boolean" then .boolean
  else if name == "date" then .date
  else .text

end ColumnType

namespace Casting

def decimal? (text : String) : Option Decimal := Decimal.ofText? (Text.trim text.toList)

def boolean? (text : String) : Option Bool :=
  match Text.lower (Text.trimString text) with
  | "true" => some true
  | "false" => some false
  | _ => none

/-- Cast a text to a type, or say why it cannot be. -/
def cast (text : String) : ColumnType → Attempt Value
  | .text => .ok (.text text)
  | .integer =>
    match decimal? text with
    | none => Attempt.fail (.badNumber text)
    | some number =>
      if number.isInteger then .ok (.int number.integerPart) else Attempt.fail (.badInteger text)
  | .float =>
    match decimal? text with
    | none => Attempt.fail (.badNumber text)
    | some number => .ok (.double number.toFloat)
  | .boolean =>
    match boolean? text with
    | none => Attempt.fail (.badBoolean text)
    | some value => .ok (.bool value)
  | .date =>
    match Instant.ofText? (Text.trim text.toList) with
    | none => Attempt.fail (.badDate text)
    | some instant => .ok (.date instant)

/-- Whether a literal shows that it is not meant as a whole number. -/
def isFractional (text : List Char) : Bool :=
  text.any fun character => character == '.' || Decimal.isExponentMark character

/-- Guess what a bare literal means; a text that means nothing else is itself. -/
def infer (text : String) : Value :=
  let trimmed := Text.trim text.toList
  let word := Text.lower (String.ofList trimmed)
  if word == "true" then .bool true
  else if word == "false" then .bool false
  else if word == "null" then .null
  else
    match Decimal.ofText? trimmed with
    | none => .text text
    | some number =>
      if number.isInteger && !isFractional trimmed then .int number.integerPart
      else .double number.toFloat

/-- Coerce a value to a number: numbers stay, texts are read. -/
def number : Value → Attempt Value
  | .int value => .ok (.int value)
  | .uint value => .ok (.uint value)
  | .single value => .ok (.single value)
  | .double value => .ok (.double value)
  | .decimal value => .ok (.double value.toFloat)
  | .text value =>
    match decimal? value with
    | none => Attempt.fail (.notNumber value)
    | some number =>
      if number.isInteger then .ok (.int number.integerPart) else .ok (.double number.toFloat)
  | other => Attempt.fail (.notNumeric other.typeName)

def floatInteger (value : Float) : Attempt Int64 :=
  match Digits.ofFloat? value with
  | none => .error (.notFinite value)
  | some digits =>
    let number := digits.toDecimal
    if number.isInteger then .ok number.integerPart else Attempt.fail (.notInteger value)

def integer (value : Value) : Attempt Int64 := do
  match ← number value with
  | .int value => return value
  | .uint value => return Int64.ofInt value.toNat
  | .single value => floatInteger value.toFloat
  | .double value => floatInteger value
  | _ => Attempt.fail (.notNumeric value.typeName)

end Casting

end StepQuery
