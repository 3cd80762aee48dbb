import StepQuery.Yaml.Basic
import StepQuery.Json.Reader

/-!
Quoted scalars and flow collections, which may run over several lines.  Inside them a line break
counts as one space, and a blank line as a line break.
-/

namespace StepQuery.Yaml

def isGap (character : Char) : Bool := character == ' ' || character == '\t'

/-- What stands for the line breaks passed: one break is a space, every further one a break. -/
def folded : (breaks : Nat) → List Nat
  | 0 => []
  | 1 => [32]
  | breaks + 1 => List.replicate breaks 10

/-- The character of a one-letter escape. -/
def letterEscape? (mark : Char) : Option Nat :=
  match mark with
  | '0' => some 0
  | 'a' => some 7
  | 'b' => some 8
  | 't' => some 9
  | 'n' => some 10
  | 'v' => some 11
  | 'f' => some 12
  | 'r' => some 13
  | 'e' => some 27
  | ' ' => some 32
  | '"' => some 34
  | '/' => some 47
  | '\\' => some 92
  | 'N' => some 0x85
  | '_' => some 0xA0
  | 'L' => some 0x2028
  | 'P' => some 0x2029
  | _ => none

/-- What has been met since the last sign of a quoted scalar: blanks, which vanish before a line
break, or line breaks, or a break that was escaped and leaves nothing. -/
inductive Pending where
  | blanks (seen : List Nat)
  | breaks (count : Nat)
  | joined

namespace Pending

def none : Pending := .blanks []

def points : Pending → List Nat
  | .blanks seen => seen
  | .breaks count => folded count
  | .joined => []

def blank (character : Char) : Pending → Pending
  | .blanks seen => .blanks (seen ++ [character.toNat])
  | other => other

def newline : Pending → Pending
  | .breaks count => .breaks (count + 1)
  | _ => .breaks 1

end Pending

/-- Put code points before what the rest of a scalar reads as. -/
def before (points : List Nat) : Option (List Nat × List Char) → Option (List Nat × List Char)
  | some (found, rest) => some (points ++ found, rest)
  | none => none

/-- The inside of a double-quoted scalar, up to the closing quote. -/
def doubleQuoted : List Char → Pending → Option (List Nat × List Char)
  | [], _ => none
  | '"' :: rest, pending => some (pending.points, rest)
  | '\n' :: rest, pending => doubleQuoted rest pending.newline
  | '\\' :: '\n' :: rest, pending => before pending.points (doubleQuoted rest .joined)
  | '\\' :: 'x' :: a :: b :: rest, pending => do
    let point ← Json.unit? '0' '0' a b
    before (pending.points ++ [point]) (doubleQuoted rest .none)
  | '\\' :: 'u' :: a :: b :: c :: d :: rest, pending => do
    let point ← Json.unit? a b c d
    before (pending.points ++ [point]) (doubleQuoted rest .none)
  | '\\' :: 'U' :: a :: b :: c :: d :: e :: f :: g :: h :: rest, pending => do
    let high ← Json.unit? a b c d
    let low ← Json.unit? e f g h
    let point := high * 65536 + low
    if 0x10FFFF < point then none
    else before (pending.points ++ [point]) (doubleQuoted rest .none)
  | '\\' :: mark :: rest, pending => do
    let point ← letterEscape? mark
    before (pending.points ++ [point]) (doubleQuoted rest .none)
  | character :: rest, pending =>
    if isGap character then doubleQuoted rest (pending.blank character)
    else before (pending.points ++ [character.toNat]) (doubleQuoted rest .none)

/-- The inside of a single-quoted scalar, where two quotes stand for one. -/
def singleQuoted : List Char → Pending → Option (List Nat × List Char)
  | [], _ => none
  | '\'' :: '\'' :: rest, pending => before (pending.points ++ [39]) (singleQuoted rest .none)
  | '\'' :: rest, pending => some (pending.points, rest)
  | '\n' :: rest, pending => singleQuoted rest pending.newline
  | character :: rest, pending =>
    if isGap character then singleQuoted rest (pending.blank character)
    else before (pending.points ++ [character.toNat]) (singleQuoted rest .none)

def quotedScalar? : List Char → Option (String × List Char)
  | '"' :: rest =>
    (doubleQuoted rest .none).map fun (found, rest) => (String.ofList (Json.joinUnits found), rest)
  | '\'' :: rest =>
    (singleQuoted rest .none).map fun (found, rest) => (String.ofList (Json.joinUnits found), rest)
  | _ => none

/-- Skip blanks, line breaks and comments.  A comment begins after a blank or at the start. -/
def skipGaps : (afterGap : Bool) → (inComment : Bool) → List Char → List Char
  | _, _, [] => []
  | _, true, '\n' :: rest => skipGaps true false rest
  | _, true, _ :: rest => skipGaps true true rest
  | afterGap, false, character :: rest =>
    if isGap character || character == '\n' then skipGaps true false rest
    else if character == '#' && afterGap then skipGaps true true rest
    else character :: rest

/-- Whether a plain scalar can begin with a character, given the one after it. -/
def beginsPlain (first : Char) (next : Option Char) : Bool :=
  if ['[', ']', '\x7b', '\x7d', ',', '#', '&', '*', '!', '|', '>', '\'', '"', '%', '@',
      '\x60'].contains first then false
  else if ['-', '?', ':'].contains first then
    match next with
    | none => false
    | some second => !(isGap second || second == '\n')
  else true

/-- How deep inside flow collections a scalar stands. -/
structure Depth where
  maps : Nat
  lists : Nat

/-- Whether a colon ends a key here.  Inside a map it always does, except before a slash. -/
def endsKey (depth : Depth) (next : Option Char) : Bool :=
  match next with
  | none => true
  | some character =>
    if 0 < depth.maps then character != '/' else isGap character || character == '\n'

/-- The characters of a plain scalar inside a flow collection, and the text after it. -/
def flowPlain (depth : Depth) : (afterGap : Bool) → List Char → List Char × List Char
  | _, [] => ([], [])
  | afterGap, character :: rest =>
    if character == ',' || (character == ']' && 0 < depth.lists) ||
        (character == '\x7d' && 0 < depth.maps) || (character == ':' && endsKey depth rest.head?) ||
        (character == '#' && afterGap) then
      ([], character :: rest)
    else
      let (others, rest) :=
        flowPlain depth (isGap character || character == '\n') rest
      (character :: others, rest)

/-- The words of a scalar that runs over lines, one space between lines. -/
def foldLines (text : List Char) : List Char :=
  let rec scan : List Char → (gaps : List Char) → (breaks : Nat) → List Char
    | [], _, _ => []
    | '\n' :: rest, _, breaks => scan rest [] (breaks + 1)
    | character :: rest, gaps, breaks =>
      if isGap character then
        scan rest (if breaks == 0 then gaps ++ [character] else []) breaks
      else (if breaks == 0 then gaps else (folded breaks).map Char.ofNat) ++
        character :: scan rest [] 0
  scan text [] 0

mutual

def flowValue : (fuel : Nat) → Depth → List Char → Option (Yaml × List Char)
  | 0, _, _ => none
  | fuel + 1, depth, input =>
    match input with
    | '[' :: rest => do
      let (items, rest) ← flowItems fuel { depth with lists := depth.lists + 1 } true rest
      return (.list items, rest)
    | '\x7b' :: rest => do
      let (entries, rest) ← flowEntries fuel { depth with maps := depth.maps + 1 } true [] rest
      return (.map entries, rest)
    | '"' :: _ => (quotedScalar? input).map fun (found, rest) => (.text found, rest)
    | '\'' :: _ => (quotedScalar? input).map fun (found, rest) => (.text found, rest)
    | first :: rest =>
      if beginsPlain first rest.head? then
        let (found, rest) := flowPlain depth false input
        some (ofPlain (foldLines found), rest)
      else none
    | [] => none

/-- The items of a flow list up to its closing bracket.  A comma may follow the last item, and an
item may be a single `key: value`. -/
def flowItems : (fuel : Nat) → Depth → (first : Bool) → List Char →
    Option (List Yaml × List Char)
  | 0, _, _, _ => none
  | fuel + 1, depth, first, input => do
    let input := skipGaps true false input
    match input with
    | ']' :: rest => return ([], rest)
    | _ =>
      let input ← if first then some input else
        match input with
        | ',' :: rest => some (skipGaps true false rest)
        | _ => none
      match input with
      | ']' :: rest => if first then none else return ([], rest)
      | _ =>
        let (value, rest) ← flowValue fuel depth input
        let rest := skipGaps false false rest
        let (item, rest) ← match rest with
          | ':' :: after =>
            if endsKey depth after.head? then
              match scalarText? value with
              | some key => do
                let after := skipGaps true false after
                match after with
                | ',' :: _ => some (Yaml.map [(key, .null)], after)
                | ']' :: _ => some (Yaml.map [(key, .null)], after)
                | _ =>
                  let (held, rest) ← flowValue fuel depth after
                  some (Yaml.map [(key, held)], rest)
              | none => none
            else none
          | _ => some (value, rest)
        let (others, rest) ← flowItems fuel depth false rest
        return (item :: others, rest)

/-- The entries of a flow map up to its closing brace.  A key may stand alone, a comma may follow
the last entry, and no key may come twice. -/
def flowEntries : (fuel : Nat) → Depth → (first : Bool) → (seen : List String) → List Char →
    Option (List (String × Yaml) × List Char)
  | 0, _, _, _, _ => none
  | fuel + 1, depth, first, seen, input => do
    let input := skipGaps true false input
    match input with
    | '\x7d' :: rest => return ([], rest)
    | _ =>
      let input ← match input with
        | ',' :: rest => some (skipGaps true false rest)
        | _ => if first then some input else none
      match input with
      | '\x7d' :: rest => return ([], rest)
      | _ =>
        let (name, rest) ← flowValue fuel depth input
        let key ← scalarText? name
        if seen.contains key then none
        else
          let rest := skipGaps false false rest
          let (value, rest) ← match rest with
            | ':' :: after =>
              let after := skipGaps true false after
              match after with
              | ',' :: _ => some (Yaml.null, after)
              | '\x7d' :: _ => some (Yaml.null, after)
              | _ => flowValue fuel depth after
            | ',' :: _ => some (Yaml.null, rest)
            | '\x7d' :: _ => some (Yaml.null, rest)
            | _ => none
          let (others, rest) ← flowEntries fuel depth false (key :: seen) rest
          return ((key, value) :: others, rest)

end

end StepQuery.Yaml
