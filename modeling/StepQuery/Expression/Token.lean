import StepQuery.Expression.Basic

/-!
The words of an expression: names, numbers, texts, bytes and signs.  Blanks and comments, which run
from two slashes to the end of the line, separate them.
-/

namespace StepQuery.Expression

inductive Token where
  | name (name : String)
  | int (value : Nat)
  | uint (value : Nat)
  | double (value : Float)
  | text (value : String)
  | bytes (value : List UInt8)
  | sign (sign : String)
deriving Inhabited

namespace Token

def isSpace (character : Char) : Bool :=
  character == ' ' || character == '\t' || character == '\n' || character == '\r' ||
    character.toNat == 12

def beginsName (character : Char) : Bool :=
  character == '_' || ('a' ≤ character && character ≤ 'z') || ('A' ≤ character && character ≤ 'Z')

def continuesName (character : Char) : Bool := beginsName character || Text.isAsciiDigit character

def isHex (character : Char) : Bool := (Text.hexValue? character).isSome

def hexNumber (digits : List Char) : Nat :=
  digits.foldl (fun total digit => 16 * total + (Text.hexValue? digit).getD 0) 0

/-- The exponent that may end a number, with its mark. -/
def exponent (input : List Char) : List Char :=
  match input with
  | mark :: rest =>
    if mark == 'e' || mark == 'E' then
      let (direction, digits) := match rest with
        | '+' :: others => (['+'], others.takeWhile Text.isAsciiDigit)
        | '-' :: others => (['-'], others.takeWhile Text.isAsciiDigit)
        | others => ([], others.takeWhile Text.isAsciiDigit)
      if digits.isEmpty then [] else mark :: direction ++ digits
    else []
  | [] => []

/-- A number with a point or an exponent, as written, if the input begins with one. -/
def fractional? (input : List Char) : Option (List Char) :=
  let whole := input.takeWhile Text.isAsciiDigit
  let rest := input.dropWhile Text.isAsciiDigit
  let fraction := match rest with
    | '.' :: others =>
      let digits := others.takeWhile Text.isAsciiDigit
      if digits.isEmpty then [] else '.' :: digits
    | _ => []
  let power := exponent (rest.drop fraction.length)
  if fraction.isEmpty && (power.isEmpty || whole.isEmpty) then none
  else some (whole ++ fraction ++ power)

/-- A whole number, marked as unsigned by a letter. -/
def whole (value : Nat) (rest : List Char) : Token × List Char :=
  match rest with
  | 'u' :: others => (.uint value, others)
  | 'U' :: others => (.uint value, others)
  | _ => (.int value, rest)

/-- A number and the text after it.  A number beyond the largest double is no number. -/
def number? (input : List Char) : Option (Token × List Char) :=
  let hexadecimal := match input with
    | '0' :: 'x' :: rest => rest.takeWhile isHex
    | _ => []
  if !hexadecimal.isEmpty then some (whole (hexNumber hexadecimal) (input.drop (2 + hexadecimal.length)))
  else
    match fractional? input with
    | some written =>
      match Decimal.ofText? written with
      | some found =>
        if found.toFloat.isFinite then some (.double found.toFloat, input.drop written.length)
        else none
      | none => none
    | none =>
      let digits := input.takeWhile Text.isAsciiDigit
      some (whole (Decimal.digitsValue digits) (input.dropWhile Text.isAsciiDigit))

/-- The inside of a quoted text up to its closing mark, escapes still in it, and the text after
it.  A character that is `escaped` ends nothing, and a text between single marks stays on its
line. -/
def inside (mark : List Char) (raw : Bool) : (escaped : Bool) → List Char →
    Option (List Char × List Char)
  | _, [] => none
  | true, character :: rest =>
    (inside mark raw false rest).map fun (found, rest) => (character :: found, rest)
  | false, character :: rest =>
    if mark.isPrefixOf (character :: rest) then
      some ([], (character :: rest).drop mark.length)
    else if mark.length == 1 && (character == '\n' || character == '\r') then none
    else
      (inside mark raw (character == '\\' && !raw) rest).map fun (found, rest) =>
        (character :: found, rest)

/-- What a text without escapes adds: a code point, or the bytes that encode it. -/
def plain (asBytes : Bool) (character : Char) : List Nat :=
  if asBytes then (String.utf8EncodeChar character).map UInt8.toNat else [character.toNat]

def simpleEscape? (mark : Char) : Option Nat :=
  match mark with
  | 'a' => some 7
  | 'b' => some 8
  | 'f' => some 12
  | 'n' => some 10
  | 'r' => some 13
  | 't' => some 9
  | 'v' => some 11
  | '\\' => some 92
  | '\'' => some 39
  | '"' => some 34
  | '\x60' => some 96
  | '?' => some 63
  | _ => none

def isOctal (character : Char) : Bool := '0' ≤ character && character ≤ '7'

/-- Put code points before those of the rest. -/
def before (points : List Nat) (rest : Option (List Nat)) : Option (List Nat) :=
  rest.map fun others => points ++ others

/-- Resolve the escapes of a text.  Escapes of four and eight digits are for texts only. -/
def unescape (asBytes : Bool) : List Char → Option (List Nat)
  | [] => some []
  | '\\' :: 'u' :: a :: b :: c :: d :: rest =>
    if asBytes || !([a, b, c, d].all isHex) then none
    else before [hexNumber [a, b, c, d]] (unescape asBytes rest)
  | '\\' :: 'U' :: a :: b :: c :: d :: e :: f :: g :: h :: rest =>
    let digits := [a, b, c, d, e, f, g, h]
    if asBytes || !(digits.all isHex) || 0x10FFFF < hexNumber digits then none
    else before [hexNumber digits] (unescape asBytes rest)
  | '\\' :: mark :: a :: b :: rest =>
    if (mark == 'x' || mark == 'X') && isHex a && isHex b then
      before [hexNumber [a, b]] (unescape asBytes rest)
    else if '0' ≤ mark && mark ≤ '3' && isOctal a && isOctal b then
      before [((mark.toNat - 48) * 8 + (a.toNat - 48)) * 8 + (b.toNat - 48)]
        (unescape asBytes rest)
    else
      match simpleEscape? mark with
      | some point => before [point] (unescape asBytes (a :: b :: rest))
      | none => none
  | '\\' :: mark :: rest =>
    match simpleEscape? mark with
    | some point => before [point] (unescape asBytes rest)
    | none => none
  | ['\\'] => none
  | character :: rest => before (plain asBytes character) (unescape asBytes rest)

/-- The character of a code point; surrogates have none of their own. -/
def character (point : Nat) : Char :=
  if 0xD800 ≤ point && point < 0xE000 then '\uFFFD' else Char.ofNat point

def quotedBody? (raw : Bool) (input : List Char) : Option (List Char × List Char) :=
  match input with
  | quote :: rest =>
    if quote == '"' || quote == '\'' then
      let triple := [quote, quote, quote]
      let long := if triple.isPrefixOf input then inside triple raw false (input.drop 3) else none
      match long with
      | some found => some found
      | none => inside [quote] raw false rest
    else none
  | [] => none

/-- A quoted text that begins with a quote, after the marks of raw texts and of bytes. -/
def quoted? (asBytes raw : Bool) (input : List Char) : Option (Token × List Char) := do
  let (body, rest) ← quotedBody? raw input
  let points ← if raw then some (body.flatMap (plain asBytes)) else unescape asBytes body
  if asBytes then return (.bytes (points.map UInt8.ofNat), rest)
  else return (.text (String.ofList (points.map character)), rest)

def isQuote (character : Option Char) : Bool :=
  character == some '"' || character == some '\''

/-- A quoted text with its marks, if the input begins with one. -/
def quotedToken (input : List Char) : Option (Option (Token × List Char)) :=
  let isMark (letter : Char) (character : Char) : Bool := Text.lowerAscii character == letter
  match input with
  | first :: second :: third :: _ =>
    if isQuote (some first) then some (quoted? false false input)
    else if isMark 'r' first && isQuote (some second) then some (quoted? false true (input.drop 1))
    else if isMark 'b' first && isQuote (some second) then some (quoted? true false (input.drop 1))
    else if isMark 'b' first && isMark 'r' second && isQuote (some third) then
      some (quoted? true true (input.drop 2))
    else none
  | first :: _ => if isQuote (some first) then some (quoted? false false input) else none
  | [] => none

def longSigns : List String := ["==", "!=", "<=", ">=", "&&", "||"]

def shortSigns : List Char :=
  ['<', '>', '!', '?', ':', '.', ',', '+', '-', '*', '/', '%', '(', ')', '[', ']', '\x7b', '\x7d']

def sign? (input : List Char) : Option (Token × List Char) :=
  match longSigns.find? fun written => written.toList.isPrefixOf input with
  | some written => some (.sign written, input.drop 2)
  | none =>
    match input with
    | first :: rest =>
      if shortSigns.contains first then some (.sign (String.ofList [first]), rest) else none
    | [] => none

/-- The token that a nonempty input begins with. -/
def next? (input : List Char) : Option (Token × List Char) :=
  match quotedToken input with
  | some found => found
  | none =>
    match input with
    | [] => none
    | first :: rest =>
      if beginsName first then
        some (.name (String.ofList (first :: rest.takeWhile continuesName)),
          rest.dropWhile continuesName)
      else if Text.isAsciiDigit first || (first == '.' && rest.head?.any Text.isAsciiDigit) then
        number? input
      else sign? input

def skip : (inComment : Bool) → List Char → List Char
  | _, [] => []
  | true, character :: rest => skip (character != '\n') rest
  | false, '/' :: '/' :: rest => skip true rest
  | false, character :: rest =>
    if isSpace character then skip false rest else character :: rest

/-- The tokens of a text, each of which takes a character at least. -/
def scan : (fuel : Nat) → List Char → Option (List Token)
  | 0, _ => none
  | fuel + 1, input =>
    match skip false input with
    | [] => some []
    | rest => do
      let (token, rest) ← next? rest
      let others ← scan fuel rest
      return token :: others

def ofText? (text : List Char) : Option (List Token) := scan (text.length + 1) text

end Token

end StepQuery.Expression
