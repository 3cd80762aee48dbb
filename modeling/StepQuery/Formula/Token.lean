import StepQuery.Formula.Basic

/-!
The words of a formula.  Splitting never fails: a piece of text that is no word becomes a token that
says what is wrong with it, so that only a reader who arrives at it complains.
-/

namespace StepQuery.Formula

/-- What a token is; a fault has a problem and the position to name. -/
inductive Word where
  | number (literal : Literal)
  | text (value : String)
  | column (name : String)
  | operator (operator : Operator)
  | opening
  | closing
  | stray
  | fault (problem : String) (position : Nat)

/-- A word with the character it begins with and the stretch of text it takes. -/
structure Token where
  word : Word
  first : Char
  span : Span

namespace Token

/-- The inside of a quoted text up to its closing quote, with the number of characters passed.  A
backslash stands for the character after it. -/
def quoted : List Char → Option (List Char × Nat)
  | [] => none
  | '\'' :: _ => some ([], 1)
  | '\\' :: character :: rest =>
    (quoted rest).map fun (found, passed) => (character :: found, passed + 2)
  | character :: rest => (quoted rest).map fun (found, passed) => (character :: found, passed + 1)

/-- The longest run of digits with at most one point. -/
def numeral : (pointed : Bool) → List Char → List Char
  | _, [] => []
  | pointed, character :: rest =>
    if character == '.' && !pointed then '.' :: numeral true rest
    else if Text.isDigit character then character :: numeral pointed rest
    else []

/-- The number that a numeral denotes.  A numeral with a point is a fraction, also when its value is
whole. -/
def literal? (written : List Char) : Option Literal :=
  match Decimal.ofText? written with
  | none => none
  | some value =>
    if value.isInteger then
      if written.contains '.' then some (.fraction value.integerPart.toFloat)
      else some (.whole value.integerPart)
    else some (.fraction value.toFloat)

def sign? (character : Char) : Option Operator :=
  match character with
  | '+' => some .add
  | '-' => some .subtract
  | '*' => some .multiply
  | '/' => some .divide
  | '%' => some .remainder
  | _ => none

/-- The word that begins at an offset with the given characters, and its length. -/
def wordAt (offset : Nat) (first : Char) (rest : List Char) : Word × Nat :=
  if first == '(' then (.opening, 1)
  else if first == ')' then (.closing, 1)
  else if first == '\'' then
    match quoted rest with
    | some (found, passed) => (.text (String.ofList found), passed + 1)
    | none => (.fault "unterminated string" (offset + 1), rest.length + 1)
  else if first == '[' then
    let name := rest.takeWhile (· != ']')
    if name.length == rest.length then
      (.fault "expected ']' to close column name" (offset + rest.length + 2), rest.length + 1)
    else if name.isEmpty then (.fault "empty column name" (offset + 3), 2)
    else (.column (String.ofList name), name.length + 2)
  else if Text.isDigit first || first == '.' then
    let written := numeral false (first :: rest)
    match literal? written with
    | some literal => (.number literal, written.length)
    | none =>
      (.fault ("invalid number '" ++ String.ofList written ++ "'") (offset + 1), written.length)
  else if beginsWord first then
    let found := first :: rest.takeWhile continuesWord
    (.column (String.ofList found), found.length)
  else
    match sign? first with
    | some operator => (.operator operator, 1)
    | none => (.stray, 1)

/-- The tokens of a text whose first character stands at an offset.  `skip` characters belong to the
token before. -/
def scan : (offset skip : Nat) → List Char → List Token
  | _, _, [] => []
  | offset, skip + 1, _ :: rest => scan (offset + 1) skip rest
  | offset, 0, character :: rest =>
    if Text.isBlank character then scan (offset + 1) 0 rest
    else
      let (found, length) := wordAt offset character rest
      ⟨found, character, ⟨offset, length⟩⟩ :: scan (offset + 1) (length - 1) rest

end Token

end StepQuery.Formula
