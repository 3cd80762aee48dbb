import StepQuery.Pattern.Basic
import StepQuery.Number.Decimal

/-!
Reading regular expressions: alternatives of sequences of repeated items.  Options given in a group
hold up to its end.
-/

namespace StepQuery.Pattern

/-- What the options of a group change. -/
structure Options where
  folded : Bool
  multiline : Bool
  dotAll : Bool

/-- The sets that a letter after a backslash names. -/
def letterSet? (letter : Char) : Option CharacterSet :=
  match letter with
  | 'd' => some .digits
  | 'D' => some (.outside .digits)
  | 's' => some .blanks
  | 'S' => some (.outside .blanks)
  | 'w' => some .words
  | 'W' => some (.outside .words)
  | _ => none

/-- The sets that have a name between colons. -/
def namedSet? (name : String) : Option CharacterSet :=
  match name with
  | "alnum" => some (.ranges [(48, 57), (65, 90), (97, 122)])
  | "alpha" => some (.ranges [(65, 90), (97, 122)])
  | "ascii" => some (.ranges [(0, 127)])
  | "blank" => some (.ranges [(9, 9), (32, 32)])
  | "cntrl" => some (.ranges [(0, 31), (127, 127)])
  | "digit" => some .digits
  | "graph" => some (.ranges [(33, 126)])
  | "lower" => some (.ranges [(97, 122)])
  | "print" => some (.ranges [(32, 126)])
  | "punct" => some (.ranges [(33, 47), (58, 64), (91, 96), (123, 126)])
  | "space" => some (.ranges [(9, 13), (32, 32)])
  | "upper" => some (.ranges [(65, 90)])
  | "word" => some .words
  | "xdigit" => some (.ranges [(48, 57), (65, 70), (97, 102)])
  | _ => none

def propertySet? (name : String) : Option CharacterSet :=
  match name with
  | "L" => some (.ranges Text.letterRanges)
  | "Nd" => some (.ranges Text.digitRanges)
  | _ => none

/-- The rest of a text after a word that it begins with. -/
def after? (word : String) (input : List Char) : Option (List Char) :=
  if word.toList.isPrefixOf input then some (input.drop word.length) else none

/-- A property after its letter: one letter, or a name in braces. -/
def property? (negated : Bool) (input : List Char) : Option (CharacterSet × List Char) := do
  let (name, rest) ← match input with
    | '\x7b' :: rest =>
      let name := rest.takeWhile (· != '\x7d')
      match rest.dropWhile (· != '\x7d') with
      | _ :: others => some (name, others)
      | [] => none
    | letter :: rest => some ([letter], rest)
    | [] => none
  let (negated, name) := match name with
    | '^' :: others => (!negated, others)
    | _ => (negated, name)
  let set ← propertySet? (String.ofList name)
  return (if negated then .outside set else set, rest)

def isOctal (character : Char) : Bool := '0' ≤ character && character ≤ '7'

def octal (digits : List Char) : Nat :=
  digits.foldl (fun total digit => 8 * total + (digit.toNat - 48)) 0

def isPunctuation (character : Char) : Bool :=
  let point := character.toNat
  point < 128 && !Text.within CharacterSet.wordRanges point || character == '_'

/-- The character that an escape stands for, its backslash read. -/
def escaped? (input : List Char) : Option (Nat × List Char) :=
  match input with
  | [] => none
  | 'a' :: rest => some (7, rest)
  | 'f' :: rest => some (12, rest)
  | 't' :: rest => some (9, rest)
  | 'n' :: rest => some (10, rest)
  | 'r' :: rest => some (13, rest)
  | 'v' :: rest => some (11, rest)
  | 'x' :: '\x7b' :: rest =>
    let digits := rest.takeWhile (· != '\x7d')
    match rest.dropWhile (· != '\x7d') with
    | _ :: others =>
      if digits.isEmpty || !(digits.all fun digit => (Text.hexValue? digit).isSome) then none
      else
        let point := digits.foldl (fun total digit => 16 * total + (Text.hexValue? digit).getD 0) 0
        if 0x10FFFF < point then none else some (point, others)
    | [] => none
  | 'x' :: high :: low :: rest => do
    return (16 * (← Text.hexValue? high) + (← Text.hexValue? low), rest)
  | first :: rest =>
    if first == '0' || (isOctal first && rest.head?.any isOctal) then
      let digits := first :: (rest.take 2).takeWhile isOctal
      some (octal digits, rest.drop (digits.length - 1))
    else if isPunctuation first then some (first.toNat, rest)
    else none

def rangeEnd? : List Char → Option (Nat × List Char)
  | '\\' :: rest => escaped? rest
  | first :: rest => some (first.toNat, rest)
  | [] => none

def setItem? (input : List Char) : Option (CharacterSet × List Char) :=
  match input with
  | '[' :: ':' :: rest =>
    let name := rest.takeWhile (· != ':')
    match rest.dropWhile (· != ':') with
    | ':' :: ']' :: others =>
      match name with
      | '^' :: positive =>
        (namedSet? (String.ofList positive)).map fun set => (.outside set, others)
      | _ => (namedSet? (String.ofList name)).map fun set => (set, others)
    | _ => some (.single '['.toNat, ':' :: rest)
  | '\\' :: 'p' :: rest => property? false rest
  | '\\' :: 'P' :: rest => property? true rest
  | _ =>
    let letter := match input with
      | '\\' :: letter :: rest => (letterSet? letter).map fun set => (set, rest)
      | _ => none
    match letter with
    | some found => some found
    | none => do
      let (low, rest) ← rangeEnd? input
      match rest with
      | '-' :: ']' :: _ => return (.single low, rest)
      | '-' :: others =>
        let (high, rest) ← rangeEnd? others
        if high < low then none else return (.ranges [(low, high)], rest)
      | _ => return (.single low, rest)

/-- The items inside brackets up to the closing one, which is an item when it comes first. -/
def setItems : (fuel : Nat) → (first : Bool) → List Char → Option (CharacterSet × List Char)
  | 0, _, _ => none
  | fuel + 1, first, input =>
    match input, first with
    | ']' :: rest, false => some (.ranges [], rest)
    | _, _ => do
      let (item, rest) ← setItem? input
      let (others, rest) ← setItems fuel false rest
      return (.union item others, rest)

def bracketed? (input : List Char) : Option (CharacterSet × List Char) :=
  match input with
  | '^' :: rest =>
    (setItems (input.length + 1) true rest).map fun (set, rest) => (.outside set, rest)
  | _ => setItems (input.length + 1) true input

/-- Counts in braces, if the input begins with well-formed ones. -/
def counts? (input : List Char) : Option (Nat × Option Nat × List Char) := do
  let rest ← after? "\x7b" input
  let inside := rest.takeWhile (· != '\x7d')
  let after ← match rest.dropWhile (· != '\x7d') with
    | _ :: others => some others
    | [] => none
  let low := inside.takeWhile (· != ',')
  let least ← Decimal.natural? low
  match inside.dropWhile (· != ',') with
  | [] => return (least, some least, after)
  | [_] => return (least, none, after)
  | _ :: high => return (least, some (← Decimal.natural? high), after)

/-- The repetition that the input begins with; the inner `none` is one that is not allowed. -/
def repetition (input : List Char) : Option (Option (Nat × Option Nat × List Char)) :=
  match input with
  | '*' :: rest => some (some (0, none, rest))
  | '+' :: rest => some (some (1, none, rest))
  | '?' :: rest => some (some (0, some 1, rest))
  | _ =>
    match counts? input with
    | none => none
    | some (least, most, rest) =>
      if 1000 < least || most.any (fun most => 1000 < most || most < least) then some none
      else some (some (least, most, rest))

/-- The options named by letters, up to the sign that ends them. -/
def options? : (on : Bool) → Options → List Char → Option (Options × List Char)
  | _, _, [] => none
  | on, options, letter :: rest =>
    match letter with
    | 'i' => options? on { options with folded := on } rest
    | 'm' => options? on { options with multiline := on } rest
    | 's' => options? on { options with dotAll := on } rest
    | 'U' => options? on options rest
    | '-' => if on then options? false options rest else none
    | ':' => some (options, ':' :: rest)
    | ')' => some (options, ')' :: rest)
    | _ => none

/-- The rest after the name of a group. -/
def groupName? (input : List Char) : Option (List Char) :=
  let name := input.takeWhile (· != '>')
  match input.dropWhile (· != '>') with
  | _ :: rest =>
    if !name.isEmpty && name.all (fun letter => isWord (some letter)) then some rest else none
  | [] => none

def literalText (options : Options) (characters : List Char) : Pattern :=
  characters.foldr (fun letter rest =>
    .sequence (.character options.folded (.single letter.toNat)) rest) .empty

/-- The text up to the end of a quotation, and the rest after it. -/
def quotation : List Char → List Char × List Char
  | [] => ([], [])
  | '\\' :: 'E' :: rest => ([], rest)
  | first :: rest =>
    let (found, rest) := quotation rest
    (first :: found, rest)

/-- An escape outside brackets, its backslash read. -/
def escape? (options : Options) (input : List Char) : Option (Pattern × List Char) :=
  match input with
  | 'A' :: rest => some (.textStart, rest)
  | 'z' :: rest => some (.textEnd, rest)
  | 'b' :: rest => some (.boundary, rest)
  | 'B' :: rest => some (.notBoundary, rest)
  | 'Q' :: rest =>
    let (found, rest) := quotation rest
    some (literalText options found, rest)
  | 'p' :: rest =>
    (property? false rest).map fun (set, rest) => (.character options.folded set, rest)
  | 'P' :: rest =>
    (property? true rest).map fun (set, rest) => (.character options.folded set, rest)
  | letter :: rest =>
    match letterSet? letter with
    | some set => some (.character options.folded set, rest)
    | none =>
      (escaped? input).map fun (point, rest) => (.character options.folded (.single point), rest)
  | [] => none

mutual

/-- Alternatives up to a closing parenthesis or the end. -/
def alternatives : (fuel : Nat) → Options → List Char → Option (Pattern × List Char)
  | 0, _, _ => none
  | fuel + 1, options, input => do
    let (first, options, rest) ← items fuel options input
    match rest with
    | '|' :: rest =>
      let (second, rest) ← alternatives fuel options rest
      return (.choice first second, rest)
    | _ => return (first, rest)

/-- Items one after the other, with the options that hold after them. -/
def items : (fuel : Nat) → Options → List Char → Option (Pattern × Options × List Char)
  | 0, _, _ => none
  | fuel + 1, options, input =>
    match input with
    | [] => some (.empty, options, [])
    | '|' :: _ => some (.empty, options, input)
    | ')' :: _ => some (.empty, options, input)
    | _ => do
      let (first, options, rest) ← item fuel options input
      let (body, rest) ← match repetition rest with
        | none => some (first, rest)
        | some none => none
        | some (some (least, most, rest)) =>
          let rest := match rest with
            | '?' :: others => others
            | _ => rest
          if (repetition rest).isSome then none else some (.repeated first least most, rest)
      let (others, options, rest) ← items fuel options rest
      return (.sequence body others, options, rest)

/-- One item: a group, a set, an assertion or a character. -/
def item : (fuel : Nat) → Options → List Char → Option (Pattern × Options × List Char)
  | 0, _, _ => none
  | fuel + 1, options, input =>
    let group (inner : Options) (rest : List Char) : Option (Pattern × Options × List Char) := do
      let (body, rest) ← alternatives fuel inner rest
      match rest with
      | ')' :: rest => return (body, options, rest)
      | _ => none
    match input with
    | '(' :: '?' :: 'P' :: '<' :: rest => (groupName? rest).bind (group options)
    | '(' :: '?' :: '<' :: rest => (groupName? rest).bind (group options)
    | '(' :: '?' :: rest => do
      let (inner, rest) ← options? true options rest
      match rest with
      | ':' :: rest => group inner rest
      | ')' :: rest => return (.empty, inner, rest)
      | _ => none
    | '(' :: rest => group options rest
    | '[' :: rest =>
      (bracketed? rest).map fun (set, rest) => (.character options.folded set, options, rest)
    | '.' :: rest =>
      let set := if options.dotAll then .outside (.ranges []) else .outside (.single 10)
      some (.character false set, options, rest)
    | '^' :: rest => some (if options.multiline then .lineStart else .textStart, options, rest)
    | '$' :: rest => some (if options.multiline then .lineEnd else .textEnd, options, rest)
    | '\\' :: rest =>
      (escape? options rest).map fun (found, rest) => (found, options, rest)
    | '*' :: _ => none
    | '+' :: _ => none
    | '?' :: _ => none
    | first :: rest =>
      if (counts? input).isSome then none
      else some (.character options.folded (.single first.toNat), options, rest)
    | [] => none

end

def parse? (text : String) : Option Pattern := do
  let input := text.toList
  let (pattern, rest) ← alternatives (4 * input.length + 4) ⟨false, false, false⟩ input
  if rest.isEmpty then return pattern else none

end StepQuery.Pattern
