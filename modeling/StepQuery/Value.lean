import StepQuery.Calendar
import StepQuery.Number.Shortest
import StepQuery.Json.Basic

/-!
The values that step parameters hold: what a JSON document can say, and what template expressions
and casts compute.  Objects are kept with ascending, distinct keys.
-/

namespace StepQuery

/-- Named entries with ascending, distinct names. -/
abbrev Fields (α : Type) := List (String × α)

namespace Fields

/-- Write one entry; an entry of the same name is replaced. -/
def set {α : Type} (name : String) (value : α) : Fields α → Fields α
  | [] => [(name, value)]
  | (other, held) :: rest =>
    if name = other then (name, value) :: rest
    else if name < other then (name, value) :: (other, held) :: rest
    else (other, held) :: set name value rest

def get? {α : Type} (fields : Fields α) (name : String) : Option α :=
  (fields.find? fun entry => entry.1 == name).map (·.2)

def has {α : Type} (fields : Fields α) (name : String) : Bool :=
  fields.any fun entry => entry.1 == name

def names {α : Type} (fields : Fields α) : List String := fields.map (·.1)

/-- Write the entries one after the other, so that the last of a name counts. -/
def ofList {α : Type} (entries : List (String × α)) : Fields α :=
  entries.foldl (fun fields entry => set entry.1 entry.2 fields) []

end Fields

inductive Value where
  | null
  | bool (value : Bool)
  | text (value : String)
  | int (value : Int64)
  | uint (value : UInt64)
  | single (value : Float32)
  | double (value : Float)
  | decimal (value : Decimal)
  | bytes (value : List UInt8)
  | date (value : Instant)
  | list (items : List Value)
  | map (fields : List (String × Value))
deriving Inhabited

namespace Value

/-- The nearest double of a literal; `none` when it is beyond the largest.  A zero keeps its sign. -/
def finite? (literal : String) : Option Float :=
  match Decimal.ofNumeral? literal.toList with
  | some number =>
    let nearest := number.toFloat
    if !nearest.isFinite then none
    else if nearest == 0 && literal.toList.head? == some '-' then some (-0.0)
    else some nearest
  | none => none

mutual

/-- The value that a document denotes; `none` when a number is beyond the range of doubles. -/
def ofJson? : Json → Option Value
  | .null => some .null
  | .bool value => some (.bool value)
  | .number literal => (finite? literal).map .double
  | .string value => some (.text value)
  | .array items => (ofItems? items).map .list
  | .object members => (ofMembers? members).map fun entries => .map (Fields.ofList entries)

def ofItems? : List Json → Option (List Value)
  | [] => some []
  | item :: rest => do
    let value ← ofJson? item
    let others ← ofItems? rest
    return value :: others

def ofMembers? : List (String × Json) → Option (List (String × Value))
  | [] => some []
  | (name, item) :: rest => do
    let value ← ofJson? item
    let others ← ofMembers? rest
    return (name, value) :: others

end

mutual

/-- The text of a value inside a list, a map or a sentence. -/
def written : Value → String
  | .null => "<nil>"
  | .bool true => "true"
  | .bool false => "false"
  | .text value => value
  | .int value => Decimal.integerText value.toInt
  | .uint value => Decimal.integerText value.toNat
  | .single value => NumberStyle.plain.float32 value
  | .double value => NumberStyle.plain.float value
  | .decimal value => Decimal.integerText value.coefficient ++ "e" ++ Decimal.integerText value.exponent
  | .bytes value =>
    "[" ++ String.intercalate " " (value.map fun byte => Decimal.integerText byte.toNat) ++ "]"
  | .date value => value.text
  | .list items => "[" ++ String.intercalate " " (writtenItems items) ++ "]"
  | .map fields => "map[" ++ String.intercalate " " (writtenFields fields) ++ "]"

def writtenItems : List Value → List String
  | [] => []
  | item :: rest => written item :: writtenItems rest

def writtenFields : List (String × Value) → List String
  | [] => []
  | (name, value) :: rest => (name ++ ":" ++ written value) :: writtenFields rest

end

/-- The text of a value that stands alone, where nothing is called `null`. -/
def display : Value → String
  | .null => "null"
  | value => written value

/-- The name of a value's type, as named when a number was wanted. -/
def typeName : Value → String
  | .null => "<nil>"
  | .bool _ => "bool"
  | .text _ => "string"
  | .int _ => "int64"
  | .uint _ => "uint64"
  | .single _ => "float32"
  | .double _ => "float64"
  | .decimal _ => "decimal.Decimal"
  | .bytes _ => "[]uint8"
  | .date _ => "time.Time"
  | .list _ => "[]interface \x7b\x7d"
  | .map _ => "map[string]interface \x7b\x7d"

/-- The six-bit digits of binary data written as text. -/
def base64Digit (n : Nat) : Char :=
  if n < 26 then Char.ofNat (65 + n)
  else if n < 52 then Char.ofNat (71 + n)
  else if n < 62 then Char.ofNat (n - 4)
  else if n == 62 then '+' else '/'

/-- Binary data as text: three bytes give four digits, the last group is filled up with `=`. -/
def base64 : List UInt8 → List Char
  | [] => []
  | [a] =>
    let n := a.toNat * 16
    [base64Digit (n / 64), base64Digit (n % 64), '=', '=']
  | [a, b] =>
    let n := (a.toNat * 256 + b.toNat) * 4
    [base64Digit (n / 4096), base64Digit (n / 64 % 64), base64Digit (n % 64), '=']
  | a :: b :: c :: rest =>
    let n := (a.toNat * 256 + b.toNat) * 256 + c.toNat
    base64Digit (n / 262144) :: base64Digit (n / 4096 % 64) :: base64Digit (n / 64 % 64) ::
      base64Digit (n % 64) :: base64 rest

mutual

/-- The document of a value; `none` for numbers that JSON cannot write. -/
def toJson? : Value → Option Json
  | .null => some .null
  | .bool value => some (.bool value)
  | .text value => some (.string value)
  | .int value => some (.number (Decimal.integerText value.toInt))
  | .uint value => some (.number (Decimal.integerText value.toNat))
  | .single value =>
    if value.isFinite then some (.number (NumberStyle.json.float32 value)) else none
  | .double value =>
    if value.isFinite then some (.number (NumberStyle.json.float value)) else none
  | .decimal value => some (.string (NumberStyle.json.float value.toFloat))
  | .bytes value => some (.string (String.ofList (base64 value)))
  | .date value => some (.string value.text)
  | .list items => (toItems? items).map .array
  | .map fields => (toMembers? fields).map .object

def toItems? : List Value → Option (List Json)
  | [] => some []
  | item :: rest => do
    let json ← toJson? item
    let others ← toItems? rest
    return json :: others

def toMembers? : List (String × Value) → Option (List (String × Json))
  | [] => some []
  | (name, value) :: rest => do
    let json ← toJson? value
    let others ← toMembers? rest
    return (name, json) :: others

end

end Value

end StepQuery
