import StepQuery.Query.Stage
import StepQuery.Json.Basic

/-!
Queries in extended JSON, the notation in which the database takes them.  What JSON has no literal
for becomes an object that names its type.
-/

namespace StepQuery

namespace Value

/-- A double; the ones that are not finite are named. -/
def extendedDouble (number : Float) : Json :=
  if number.isFinite then .number (NumberStyle.extended.float number)
  else
    let name := if number.isNaN then "NaN" else if 0 < number then "Infinity" else "-Infinity"
    .object [("$numberDouble", .string name)]

def extendedBytes (content : List UInt8) : Json :=
  .object [("$binary", .object [("base64", .string (String.ofList (base64 content))),
    ("subType", .string "00")])]

mutual

/-- The extended JSON of a value; `none` for a whole number beyond 64 bits with a sign. -/
def extended? : Value → Option Json
  | .null => some .null
  | .bool held => some (.bool held)
  | .text content => some (.string content)
  | .int number => some (.number (Decimal.integerText number.toInt))
  | .uint number =>
    if number.toNat < twoTo 63 then some (.number (Decimal.integerText number.toNat)) else none
  | .single number => some (extendedDouble number.toFloat)
  | .double number => some (extendedDouble number)
  | .decimal number => some (extendedDouble number.toFloat)
  | .bytes content => some (extendedBytes content)
  | .date instant => some (.object [("$date", .string instant.text)])
  | .list items => (extendedItems? items).map .array
  | .map fields => (extendedFields? fields).map .object

def extendedItems? : List Value → Option (List Json)
  | [] => some []
  | first :: rest => do
    let json ← extended? first
    let others ← extendedItems? rest
    return json :: others

def extendedFields? : List (String × Value) → Option (List (String × Json))
  | [] => some []
  | (name, held) :: rest => do
    let json ← extended? held
    let others ← extendedFields? rest
    return (name, json) :: others

end

end Value

namespace Term

mutual

/-- The extended JSON of a term; `none` when a constant in it has none. -/
def extended? : Term → Option Json
  | .constant held => held.extended?
  | .array items => (extendedItems? items).map .array
  | .document fields => (extendedFields? fields).map .object
  | .ordered fields => (extendedFields? fields).map .object

def extendedItems? : List Term → Option (List Json)
  | [] => some []
  | first :: rest => do
    let json ← extended? first
    let others ← extendedItems? rest
    return json :: others

def extendedFields? : List (String × Term) → Option (List (String × Json))
  | [] => some []
  | (name, held) :: rest => do
    let json ← extended? held
    let others ← extendedFields? rest
    return (name, json) :: others

end

end Term

end StepQuery
