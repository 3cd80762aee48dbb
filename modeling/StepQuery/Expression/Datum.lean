import StepQuery.Expression.Basic

/-!
The values that expressions compute with, and the operations on them.  An operation that is not
defined on its operands has no value.  Numbers of different kinds compare by size but do not mix in
arithmetic.
-/

namespace StepQuery.Expression

inductive Datum where
  | null
  | bool (value : Bool)
  | int (value : Int64)
  | uint (value : UInt64)
  | double (value : Float)
  | text (value : String)
  | bytes (value : List UInt8)
  | list (items : List Datum)
  | map (entries : List (Datum × Datum))
  | type (name : String)
deriving Inhabited

namespace Datum

mutual

def ofValue : Value → Datum
  | .null => .null
  | .bool value => .bool value
  | .text value => .text value
  | .int value => .int value
  | .uint value => .uint value
  | .single value => .double value.toFloat
  | .double value => .double value
  | .decimal value => .double value.toFloat
  | .bytes value => .bytes value
  | .date value => .text value.text
  | .list items => .list (ofValues items)
  | .map fields => .map (ofFields fields)

def ofValues : List Value → List Datum
  | [] => []
  | first :: rest => ofValue first :: ofValues rest

def ofFields : List (String × Value) → List (Datum × Datum)
  | [] => []
  | (word, value) :: rest => (.text word, ofValue value) :: ofFields rest

end

/-- The text of a key of a map; keys that are collections or bytes have none. -/
def keyText? : Datum → Option String
  | .null => some "NULL_VALUE"
  | .bool value => some (Value.written (.bool value))
  | .int value => some (Value.written (.int value))
  | .uint value => some (Value.written (.uint value))
  | .double value => some (Value.written (.double value))
  | .text value => some value
  | .type word => some word
  | .bytes _ | .list _ | .map _ => none

mutual

/-- The value a datum is outside of expressions.  Maps get texts for keys, and types their names. -/
def toValue? : Datum → Option Value
  | .null => some .null
  | .bool value => some (.bool value)
  | .int value => some (.int value)
  | .uint value => some (.uint value)
  | .double value => some (.double value)
  | .text value => some (.text value)
  | .bytes value => some (.bytes value)
  | .type word => some (.text word)
  | .list items => (toValues? items).map .list
  | .map entries => (toFields? entries).map fun fields => .map (Fields.ofList fields)

def toValues? : List Datum → Option (List Value)
  | [] => some []
  | first :: rest => do
    let value ← toValue? first
    let others ← toValues? rest
    return value :: others

def toFields? : List (Datum × Datum) → Option (List (String × Value))
  | [] => some []
  | (key, held) :: rest => do
    let word ← keyText? key
    let value ← toValue? held
    let others ← toFields? rest
    return (word, value) :: others

end

def typeName : Datum → String
  | .null => "null_type"
  | .bool _ => "bool"
  | .int _ => "int"
  | .uint _ => "uint"
  | .double _ => "double"
  | .text _ => "string"
  | .bytes _ => "bytes"
  | .list _ => "list"
  | .map _ => "map"
  | .type _ => "type"

def compareFloats (first second : Float) : Option Ordering :=
  if first.isNaN || second.isNaN then none
  else if first < second then some .lt
  else if second < first then some .gt
  else some .eq

def compareBytes : List UInt8 → List UInt8 → Ordering
  | [], [] => .eq
  | [], _ => .lt
  | _, [] => .gt
  | first :: rest, second :: others =>
    if first < second then .lt else if second < first then .gt else compareBytes rest others

/-- The order of two numbers of any kind. -/
def compareNumbers : Datum → Datum → Option Ordering
  | .int first, .int second => some (compare first.toInt second.toInt)
  | .int first, .uint second => some (compare first.toInt (second.toNat : Int))
  | .uint first, .int second => some (compare (first.toNat : Int) second.toInt)
  | .uint first, .uint second => some (compare first.toNat second.toNat)
  | .int first, .double second => compareFloats first.toFloat second
  | .double first, .int second => compareFloats first second.toFloat
  | .uint first, .double second => compareFloats first.toFloat second
  | .double first, .uint second => compareFloats first second.toFloat
  | .double first, .double second => compareFloats first second
  | _, _ => none

/-- The order of two values that have one. -/
def order? : Datum → Datum → Option Ordering
  | .bool first, .bool second => some (compare first.toNat second.toNat)
  | .text first, .text second => some (compare first second)
  | .bytes first, .bytes second => some (compareBytes first second)
  | first, second => compareNumbers first second

/-- Whether two keys are the same key. -/
def isKey : Datum → Datum → Bool
  | .null, .null => true
  | .bool first, .bool second => first == second
  | .int first, .int second => first == second
  | .uint first, .uint second => first == second
  | .double first, .double second => first == second
  | .text first, .text second => first == second
  | .type first, .type second => first == second
  | _, _ => false

/-- The whole number that a double is exactly. -/
def exactInt? (value : Float) : Option Int64 :=
  if -9223372036854775808.0 < value && value < 9223372036854775808.0 &&
      value.toInt64.toFloat == value then some value.toInt64
  else none

def exactUint? (value : Float) : Option UInt64 :=
  if 0 ≤ value && value < 18446744073709551616.0 && value.toUInt64.toFloat == value then
    some value.toUInt64
  else none

def intAsUint? (value : Int64) : Option UInt64 :=
  if 0 ≤ value.toInt then some (UInt64.ofNat value.toInt.toNat) else none

def uintAsInt? (value : UInt64) : Option Int64 :=
  if value.toNat < twoTo 63 then some (Int64.ofInt value.toNat) else none

/-- The keys to try for a key, besides itself: whole numbers of the other kinds. -/
def alternatives : Datum → List Datum
  | .double value =>
    (exactInt? value).toList.map .int ++ (exactUint? value).toList.map .uint
  | .int value => (intAsUint? value).toList.map .uint
  | .uint value => (uintAsInt? value).toList.map .int
  | _ => []

def lookupExact (entries : List (Datum × Datum)) (key : Datum) : Option Datum :=
  (entries.find? fun entry => isKey entry.1 key).map (·.2)

def lookup (entries : List (Datum × Datum)) (key : Datum) : Option Datum :=
  (key :: alternatives key).findSome? (lookupExact entries)

mutual

/-- Whether two values are equal.  Values of different kinds differ, except numbers. -/
def isEqual : Datum → Datum → Bool
  | .null, .null => true
  | .bool first, .bool second => first == second
  | .text first, .text second => first == second
  | .bytes first, .bytes second => first == second
  | .type first, .type second => first == second
  | .list first, .list second => areEqual first second
  | .map first, .map second =>
    first.length == second.length && entriesIn second first
  | first, second => compareNumbers first second == some .eq

def areEqual : List Datum → List Datum → Bool
  | [], [] => true
  | first :: rest, second :: others => isEqual first second && areEqual rest others
  | _, _ => false

def entriesIn (others : List (Datum × Datum)) : List (Datum × Datum) → Bool
  | [] => true
  | (key, held) :: rest =>
    (match lookup others key with
    | some found => isEqual held found
    | none => false) && entriesIn others rest

end

def ofInt? (value : Int) : Option Datum :=
  if -(twoTo 63 : Int) ≤ value && value < twoTo 63 then some (.int (Int64.ofInt value)) else none

def ofNat? (value : Int) : Option Datum :=
  if 0 ≤ value && value < twoTo 64 then some (.uint (UInt64.ofNat value.toNat)) else none

def add? : Datum → Datum → Option Datum
  | .int first, .int second => ofInt? (first.toInt + second.toInt)
  | .uint first, .uint second => ofNat? ((first.toNat : Int) + second.toNat)
  | .double first, .double second => some (.double (first + second))
  | .text first, .text second => some (.text (first ++ second))
  | .bytes first, .bytes second => some (.bytes (first ++ second))
  | .list first, .list second => some (.list (first ++ second))
  | _, _ => none

def subtract? : Datum → Datum → Option Datum
  | .int first, .int second => ofInt? (first.toInt - second.toInt)
  | .uint first, .uint second => ofNat? ((first.toNat : Int) - second.toNat)
  | .double first, .double second => some (.double (first - second))
  | _, _ => none

def multiply? : Datum → Datum → Option Datum
  | .int first, .int second => ofInt? (first.toInt * second.toInt)
  | .uint first, .uint second => ofNat? ((first.toNat : Int) * second.toNat)
  | .double first, .double second => some (.double (first * second))
  | _, _ => none

/-- Whole numbers divide toward zero, and not by zero. -/
def divide? : Datum → Datum → Option Datum
  | .int first, .int second =>
    if second == 0 then none else ofInt? (Int.tdiv first.toInt second.toInt)
  | .uint first, .uint second =>
    if second == 0 then none else ofNat? ((first.toNat / second.toNat : Nat) : Int)
  | .double first, .double second => some (.double (first / second))
  | _, _ => none

/-- The remainder has the sign of the dividend.  The one division that overflows has none. -/
def remainder? : Datum → Datum → Option Datum
  | .int first, .int second =>
    if second == 0 || (first == Int64.minValue && second == -1) then none
    else ofInt? (Int.tmod first.toInt second.toInt)
  | .uint first, .uint second =>
    if second == 0 then none else ofNat? ((first.toNat % second.toNat : Nat) : Int)
  | _, _ => none

def negate? : Datum → Option Datum
  | .int value => ofInt? (-value.toInt)
  | .double value => some (.double (-value))
  | _ => none

/-- The position that a number names in a list. -/
def position? : Datum → Option Int64
  | .int value => some value
  | .double value => exactInt? value
  | .uint value => uintAsInt? value
  | _ => none

def index? : Datum → Datum → Option Datum
  | .list items, key => do
    let position ← position? key
    if position.toInt < 0 then none else items[position.toInt.toNat]?
  | .map entries, key => lookup entries key
  | _, _ => none

def select? (operand : Datum) (field : String) : Option Datum :=
  match operand with
  | .map entries => lookup entries (.text field)
  | _ => none

/-- Whether a value has a field.  A list cannot be asked. -/
def has? (operand : Datum) (field : String) : Option Bool :=
  match operand with
  | .map entries => some (lookup entries (.text field)).isSome
  | .list _ => none
  | _ => some false

def isMember? (element : Datum) : Datum → Option Bool
  | .list items => some (items.any fun item => isEqual element item)
  | .map entries => some (lookup entries element).isSome
  | _ => none

def size? : Datum → Option Nat
  | .text value => some value.length
  | .bytes value => some value.length
  | .list items => some items.length
  | .map entries => some entries.length
  | _ => none

/-! ## Conversions -/

def toInt? : Datum → Option Datum
  | .int value => some (.int value)
  | .uint value => (uintAsInt? value).map .int
  | .double value =>
    if -9223372036854775808.0 < value && value < 9223372036854775808.0 then
      some (.int value.toInt64)
    else none
  | .text value => (Decimal.integer? value.toList).bind ofInt?
  | _ => none

def toUint? : Datum → Option Datum
  | .uint value => some (.uint value)
  | .int value => (intAsUint? value).map .uint
  | .double value =>
    if 0 ≤ value && value < 18446744073709551616.0 then some (.uint value.toUInt64) else none
  | .text value => (Decimal.natural? value.toList).bind fun n => ofNat? n
  | _ => none

/-- The digits of a number without the underscores between them; `none` when one stands elsewhere. -/
def withoutSeparators : (afterDigit : Bool) → List Char → Option (List Char)
  | _, [] => some []
  | true, '_' :: digit :: rest =>
    if Text.isAsciiDigit digit then (withoutSeparators true rest).map (digit :: ·) else none
  | _, '_' :: _ => none
  | _, character :: rest =>
    (withoutSeparators (Text.isAsciiDigit character) rest).map (character :: ·)

/-- The double that a text writes.  A finite text beyond the largest double writes none. -/
def floatOfText? (text : String) : Option Float := do
  let (negative, body) := match text.toList with
    | '-' :: rest => (true, rest)
    | '+' :: rest => (false, rest)
    | rest => (false, rest)
  let word := Text.lower (String.ofList body)
  let magnitude ←
    if word == "inf" || word == "infinity" then some (1.0 / 0.0)
    else if word == "nan" then
      if body.length == text.length then some (0.0 / 0.0) else none
    else do
      let digits ← withoutSeparators false body
      if Decimal.isNumeral digits then
        let found ← Decimal.ofText? digits
        if found.toFloat.isFinite then some found.toFloat else none
      else none
  return if negative then -magnitude else magnitude

def toDouble? : Datum → Option Datum
  | .double value => some (.double value)
  | .int value => some (.double value.toFloat)
  | .uint value => some (.double value.toFloat)
  | .text value => (floatOfText? value).map .double
  | _ => none

def toBool? : Datum → Option Datum
  | .bool value => some (.bool value)
  | .text value =>
    if ["1", "t", "T", "TRUE", "true", "True"].contains value then some (.bool true)
    else if ["0", "f", "F", "FALSE", "false", "False"].contains value then some (.bool false)
    else none
  | _ => none

def toText? : Datum → Option Datum
  | .text value => some (.text value)
  | .bool value => some (.text (Value.written (.bool value)))
  | .int value => some (.text (Value.written (.int value)))
  | .uint value => some (.text (Value.written (.uint value)))
  | .double value => some (.text (Value.written (.double value)))
  | .bytes value => (String.fromUTF8? (ByteArray.mk value.toArray)).map .text
  | _ => none

def toBytes? : Datum → Option Datum
  | .bytes value => some (.bytes value)
  | .text value => some (.bytes (value.toList.flatMap String.utf8EncodeChar))
  | _ => none

end Datum

end StepQuery.Expression
