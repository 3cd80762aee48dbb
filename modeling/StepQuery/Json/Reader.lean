import StepQuery.Json.Basic
import StepQuery.Text.Class

/-!
Reading JSON text.  The reader is a recursive descent whose depth is bounded by the length of the
text, since every nested value takes at least one character.
-/

namespace StepQuery.Json

def isSpace (character : Char) : Bool :=
  character == ' ' || character == '\t' || character == '\n' || character == '\r'

def skipSpace (input : List Char) : List Char := input.dropWhile isSpace

/-- Fail at the first character of a text, or at its end. -/
def refuse {α : Type} : List Char → Except Fault (α × List Char)
  | [] => .error .ended
  | _ :: _ => .error .unexpected

/-- The rest of a text after the given word. -/
def expect : (word input : List Char) → Except Fault (List Char)
  | [], input => .ok input
  | _ :: _, [] => .error .ended
  | wanted :: word, character :: input =>
    if wanted == character then expect word input else .error .unexpected

def digits (input : List Char) : Except Fault (List Char × List Char) :=
  match input.takeWhile Text.isAsciiDigit with
  | [] => refuse input
  | found => .ok (found, input.dropWhile Text.isAsciiDigit)

/-- The whole part of a number: no digit follows a leading zero. -/
def wholePart : List Char → Except Fault (List Char × List Char)
  | '0' :: rest => .ok (['0'], rest)
  | input => digits input

def fractionPart : List Char → Except Fault (List Char × List Char)
  | '.' :: rest => (digits rest).map fun (found, rest) => ('.' :: found, rest)
  | input => .ok ([], input)

def exponentPart : List Char → Except Fault (List Char × List Char)
  | mark :: sign :: rest =>
    if mark == 'e' || mark == 'E' then
      if sign == '+' || sign == '-' then
        (digits rest).map fun (found, rest) => (mark :: sign :: found, rest)
      else (digits (sign :: rest)).map fun (found, rest) => (mark :: found, rest)
    else .ok ([], mark :: sign :: rest)
  | [mark] => if mark == 'e' || mark == 'E' then .error .ended else .ok ([], [mark])
  | [] => .ok ([], [])

def readNumber (input : List Char) : Except Fault (String × List Char) := do
  let (sign, input) := match input with
    | '-' :: rest => (['-'], rest)
    | _ => ([], input)
  let (whole, input) ← wholePart input
  let (fraction, input) ← fractionPart input
  let (exponent, input) ← exponentPart input
  return (String.ofList (sign ++ whole ++ fraction ++ exponent), input)

/-- The number that four hexadecimal digits denote. -/
def unit? (first second third fourth : Char) : Option Nat := do
  let a ← Text.hexValue? first
  let b ← Text.hexValue? second
  let c ← Text.hexValue? third
  let d ← Text.hexValue? fourth
  return ((a * 16 + b) * 16 + c) * 16 + d

/-- The character that a short escape stands for. -/
def shortEscape? (mark : Char) : Option Nat :=
  match mark with
  | '"' => some 34
  | '\\' => some 92
  | '/' => some 47
  | 'b' => some 8
  | 'f' => some 12
  | 'n' => some 10
  | 'r' => some 13
  | 't' => some 9
  | _ => none

/-- The fault of an escape that is cut short or holds something else than a hexadecimal digit. -/
def escapeFault (input : List Char) : Fault :=
  if (input.take 4).all fun character => (Text.hexValue? character).isSome then .ended
  else .unexpected

/-- The code points and code units of a quoted text up to its closing quote. -/
def units : List Char → Except Fault (List Nat × List Char)
  | [] => .error .ended
  | '"' :: rest => .ok ([], rest)
  | '\\' :: 'u' :: a :: b :: c :: d :: rest =>
    match unit? a b c d with
    | some found => (units rest).map fun (others, rest) => (found :: others, rest)
    | none => .error .unexpected
  | '\\' :: 'u' :: rest => .error (escapeFault rest)
  | '\\' :: mark :: rest =>
    match shortEscape? mark with
    | some found => (units rest).map fun (others, rest) => (found :: others, rest)
    | none => .error .unexpected
  | ['\\'] => .error .ended
  | character :: rest =>
    if character.toNat < 32 then .error .unexpected
    else (units rest).map fun (others, rest) => (character.toNat :: others, rest)

def isHighSurrogate (n : Nat) : Bool := 0xD800 ≤ n && n < 0xDC00

def isLowSurrogate (n : Nat) : Bool := 0xDC00 ≤ n && n < 0xE000

/-- Put surrogate pairs together; a surrogate without its partner becomes the replacement
character. -/
def joinUnits : List Nat → List Char
  | [] => []
  | [n] => if isHighSurrogate n || isLowSurrogate n then ['\uFFFD'] else [Char.ofNat n]
  | high :: low :: rest =>
    if isHighSurrogate high then
      if isLowSurrogate low then
        Char.ofNat (0x10000 + (high - 0xD800) * 1024 + (low - 0xDC00)) :: joinUnits rest
      else '\uFFFD' :: joinUnits (low :: rest)
    else if isLowSurrogate high then '\uFFFD' :: joinUnits (low :: rest)
    else Char.ofNat high :: joinUnits (low :: rest)

/-- A text whose opening quote has been read. -/
def quotedText (input : List Char) : Except Fault (String × List Char) :=
  (units input).map fun (found, rest) => (String.ofList (joinUnits found), rest)

mutual

/-- A value, spaces before it skipped. -/
def readValue : (depth : Nat) → List Char → Except Fault (Json × List Char)
  | 0, _ => .error .ended
  | depth + 1, input =>
    match skipSpace input with
    | [] => .error .ended
    | '\x7b' :: rest =>
      match skipSpace rest with
      | '\x7d' :: rest => .ok (.object [], rest)
      | rest => (readMembers depth rest).map fun (found, rest) => (.object found, rest)
    | '[' :: rest =>
      match skipSpace rest with
      | ']' :: rest => .ok (.array [], rest)
      | rest => (readItems depth rest).map fun (found, rest) => (.array found, rest)
    | '"' :: rest => (quotedText rest).map fun (found, rest) => (.string found, rest)
    | 't' :: rest => (expect "rue".toList rest).map fun rest => (.bool true, rest)
    | 'f' :: rest => (expect "alse".toList rest).map fun rest => (.bool false, rest)
    | 'n' :: rest => (expect "ull".toList rest).map fun rest => (.null, rest)
    | input => (readNumber input).map fun (literal, rest) => (.number literal, rest)

/-- The items of an array up to its closing bracket, one at least. -/
def readItems : (depth : Nat) → List Char → Except Fault (List Json × List Char)
  | 0, _ => .error .ended
  | depth + 1, input => do
    let (first, rest) ← readValue depth input
    match skipSpace rest with
    | ',' :: rest => (readItems depth rest).map fun (others, rest) => (first :: others, rest)
    | ']' :: rest => .ok ([first], rest)
    | rest => refuse rest

/-- The members of an object up to its closing brace, one at least. -/
def readMembers : (depth : Nat) → List Char → Except Fault (List (String × Json) × List Char)
  | 0, _ => .error .ended
  | depth + 1, input =>
    match skipSpace input with
    | '"' :: rest => do
      let (key, rest) ← quotedText rest
      match skipSpace rest with
      | ':' :: rest => do
        let (found, rest) ← readValue depth rest
        match skipSpace rest with
        | ',' :: rest =>
          (readMembers depth rest).map fun (others, rest) => ((key, found) :: others, rest)
        | '\x7d' :: rest => .ok ([(key, found)], rest)
        | rest => refuse rest
      | rest => refuse rest
    | rest => refuse rest

end

/-- The document that a text holds, nothing but spaces around it. -/
def parse (input : List Char) : Except Fault Json := do
  let (found, rest) ← readValue (input.length + 1) input
  match skipSpace rest with
  | [] => .ok found
  | _ :: _ => .error .unexpected

def isValid (input : List Char) : Bool := (parse input).isOk

end StepQuery.Json
