import StepQuery.Number.Shortest
import StepQuery.Json.Basic

/-!
YAML documents as values, and what an unquoted scalar denotes.
-/

namespace StepQuery

inductive Yaml where
  | null
  | bool (value : Bool)
  | int (value : Int)
  | float (value : Float)
  | text (value : String)
  | list (items : List Yaml)
  | map (entries : List (String × Yaml))
deriving Inhabited

namespace Yaml

/-- The value of a digit in a base up to sixteen. -/
def digit? (base : Nat) (character : Char) : Option Nat :=
  match Text.hexValue? character with
  | some n => if n < base then some n else none
  | none => none

def naturalIn? (base : Nat) (digits : List Char) : Option Nat :=
  if digits.isEmpty then none
  else digits.foldlM (fun total digit => (digit? base digit).map fun n => base * total + n) 0

def float? (negative : Bool) (body : List Char) : Option Yaml :=
  if Decimal.isNumeral body then
    match Decimal.ofText? body with
    | some number =>
      let magnitude := number.toFloat
      if magnitude.isFinite then some (.float (if negative then -magnitude else magnitude))
      else none
    | none => none
  else none

/-- A whole number of 64 bits: from `-2 ^ 63` with a sign, up to `2 ^ 64 - 1` without. -/
def integer? (negative : Bool) (base : Nat) (digits : List Char) : Option Yaml := do
  let n ← naturalIn? base digits
  if negative then if n ≤ twoTo 63 then return .int (-(n : Int)) else none
  else if n < twoTo 64 then return .int n else none

def withoutSign (mark : Char) : List Char → List Char
  | first :: rest => if first == mark then rest else first :: rest
  | [] => []

/-- The number that an unquoted text denotes.  Underscores separate digits, a leading zero or a
letter after it tells the base, and only a number with a point is a float. -/
def number? (text : List Char) : Option Yaml :=
  let points := text.count '.'
  if text.isEmpty || text.head? == some '_' || 1 < points then none
  else
    let negative := text.head? == some '-'
    let body := (withoutSign '-' (withoutSign '+' text)).filter (· != '_')
    match body with
    | '0' :: 'x' :: digits => integer? negative 16 digits
    | '0' :: 'o' :: digits => integer? negative 8 digits
    | '0' :: 'b' :: digits => integer? negative 2 digits
    | _ =>
      if body.head? == some '0' && 1 < body.length && points == 0 then integer? negative 8 body
      else if points == 1 then float? negative body
      else integer? negative 10 body

/-- What an unquoted scalar denotes. -/
def ofPlain (text : List Char) : Yaml :=
  let word := String.ofList text
  if ["", "null", "Null", "NULL", "~"].contains word then .null
  else if ["true", "True", "TRUE"].contains word then .bool true
  else if ["false", "False", "FALSE"].contains word then .bool false
  else if [".inf", ".Inf", ".INF"].contains word then .float (1.0 / 0.0)
  else if ["-.inf", "-.Inf", "-.INF"].contains word then .float (-1.0 / 0.0)
  else if [".nan", ".NaN", ".NAN"].contains word then .float (0.0 / 0.0)
  else (number? text).getD (.text word)

/-- The text of a scalar used as a key or where a text is wanted; `none` for collections. -/
def scalarText? : Yaml → Option String
  | .null => some "null"
  | .bool true => some "true"
  | .bool false => some "false"
  | .int value => some (Decimal.integerText value)
  | .float value => some (NumberStyle.plain.float value)
  | .text value => some value
  | .list _ | .map _ => none

/-- Floats keep a point or an exponent, so that they stay apart from whole numbers. -/
def floatStyle : NumberStyle := ⟨-4, 6, 'e', true, true⟩

/-- Whether a text can be carried over into a JSON document: it holds no control character but the
common ones, and no unprintable character beyond the basic plane. -/
def isWritable (text : String) : Bool :=
  text.toList.all fun character =>
    let point := character.toNat
    if point < 32 then point == 8 || point == 9 || point == 10 || point == 12 || point == 13
    else if point == 127 then false
    else if point < 0x10000 then true
    else Text.isPrintable character

mutual

/-- The JSON document with the same content; `none` when a scalar has no JSON form. -/
def toJson? : Yaml → Option Json
  | .null => some .null
  | .bool value => some (.bool value)
  | .int value => some (.number (Decimal.integerText value))
  | .float value => if value.isFinite then some (.number (floatStyle.float value)) else none
  | .text value => if isWritable value then some (.string value) else none
  | .list items => (itemsJson? items).map .array
  | .map entries => (entriesJson? entries).map .object

def itemsJson? : List Yaml → Option (List Json)
  | [] => some []
  | item :: rest => do
    let first ← toJson? item
    let others ← itemsJson? rest
    return first :: others

def entriesJson? : List (String × Yaml) → Option (List (String × Json))
  | [] => some []
  | (key, value) :: rest => do
    if isWritable key then
      let first ← toJson? value
      let others ← entriesJson? rest
      return (key, first) :: others
    else none

end

end Yaml

end StepQuery
