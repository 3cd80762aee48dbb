import StepQuery.Value

/-!
Environment files, and texts that mention variables of the environment.  An environment file
assigns a value to one name after the other; values may be quoted, and those that are not in single
quotes may mention names assigned before.
-/

namespace StepQuery.Environment

/-- Replace what is recognised in a text.  A recognised part is given by what it means and by its
length; the search goes on behind it. -/
def replace {m : Type → Type} [Monad m] {α : Type} (recognise? : List Char → Option (α × Nat))
    (meaning : α → m (List Char)) : (skip : Nat) → List Char → m (List Char)
  | _, [] => pure []
  | skip + 1, _ :: rest => replace recognise? meaning skip rest
  | 0, character :: rest =>
    match recognise? (character :: rest) with
    | some (found, length) => do
      let replacement ← meaning found
      let others ← replace recognise? meaning (length - 1) rest
      return replacement ++ others
    | none => do
      let others ← replace recognise? meaning 0 rest
      return character :: others

/-! ## Mentions of variables -/

/-- A name in braces after a dollar sign. -/
def braced? : List Char → Option (String × Nat)
  | '$' :: '\x7b' :: rest =>
    let name := rest.takeWhile (· != '\x7d')
    if name.isEmpty || name.length == rest.length then none
    else some (String.ofList name, name.length + 3)
  | _ => none

def isNameStart (character : Char) : Bool := character.isAlpha || character == '_'

def isNamePart (character : Char) : Bool := character.isAlphanum || character == '_'

def plain? : List Char → Option (String × Nat)
  | '$' :: first :: rest =>
    if isNameStart first then
      let name := first :: rest.takeWhile isNamePart
      some (String.ofList name, name.length + 1)
    else none
  | _ => none

/-- A text with the variables it mentions replaced by their values, those in braces first. -/
def expand {m : Type → Type} [Monad m] (lookup : String → m String) (text : String) :
    m String := do
  let meaning (name : String) : m (List Char) := do return (← lookup name).toList
  let unbraced ← replace braced? meaning 0 text.toList
  let expanded ← replace plain? meaning 0 unbraced
  return String.ofList expanded

/-! ## Environment files -/

/-- The blanks that do not end a line. -/
def isGap (character : Char) : Bool :=
  character == ' ' || character == '\t' || character == '\x0b' || character == '\x0c' ||
    character == '\r' || character == '\u0085' || character == '\u00A0'

def isLineEnd (character : Char) : Bool := character == '\n' || character == '\r'

/-- Lines end with a line feed. -/
def withoutReturns : List Char → List Char
  | [] => []
  | '\r' :: '\n' :: rest => '\n' :: withoutReturns rest
  | character :: rest => character :: withoutReturns rest

/-- The text from the next assignment on; blanks and comments are skipped. -/
def nextStatement : (inComment : Bool) → List Char → List Char
  | _, [] => []
  | true, character :: rest => nextStatement (character != '\n') rest
  | false, character :: rest =>
    if Text.isBlank character then nextStatement false rest
    else if character == '#' then nextStatement true rest
    else character :: rest

/-- The word that may stand before an assignment. -/
def withoutExport (text : List Char) : List Char :=
  let word := "export".toList
  if word.isPrefixOf text && ((text.drop word.length).head?.any isGap) then
    (text.drop word.length).dropWhile isGap
  else text

/-- Whether a byte may stand in a name, taken as the character with its number. -/
def isNameByte (byte : UInt8) : Bool :=
  let character := Char.ofNat byte.toNat
  isGap character || isNamePart character || character == '.' ||
    [0xAA, 0xB2, 0xB3, 0xB5, 0xB9, 0xBA, 0xBC, 0xBD, 0xBE].contains byte.toNat ||
    (0xC0 ≤ byte.toNat && byte.toNat != 0xD7 && byte.toNat != 0xF7)

def isNameEnd (character : Char) : Bool := character == '=' || character == ':'

/-- The name of an assignment and what follows it.  A last line without a sign for assignment has
no name and is all value. -/
def name? (text : List Char) : Option (String × List Char) :=
  let written := text.takeWhile (!isNameEnd ·)
  if text.isEmpty || !written.all (fun character =>
      (String.utf8EncodeChar character).all isNameByte) then none
  else
    match text.dropWhile (!isNameEnd ·) with
    | [] => some ("", text)
    | _ :: rest =>
      some (String.ofList (written.reverse.dropWhile Text.isBlank).reverse, rest.dropWhile isGap)

def isMentionPart (character : Char) : Bool :=
  character.isUpper || character.isDigit || character == '_'

/-- A text without the given character at its front. -/
def dropOne (wanted : Char) (text : List Char) : List Char :=
  if text.head? == some wanted then text.drop 1 else text

/-- What stands after a dollar sign: the name that is mentioned, and the rest of the text.  A
parenthesis and a brace may open it and a brace may close it. -/
def mention (text : List Char) : List Char × List Char :=
  let opened := dropOne '\x7b' (dropOne '(' text)
  (opened.takeWhile isMentionPart, dropOne '\x7d' (opened.dropWhile isMentionPart))

/-- A mention in a value, with what stands for it.  A backslash before it protects it. -/
def mentioned? (known : List (String × String)) : List Char → Option (List Char × Nat)
  | '\\' :: '$' :: text =>
    let length := text.length - (mention text).2.length
    some ('$' :: text.take length, length + 2)
  | '$' :: text =>
    let (name, rest) := mention text
    let length := text.length - rest.length
    if name.isEmpty then some ('$' :: text.take length, length + 1)
    else
      let held := (known.reverse.find? fun entry => entry.1 == String.ofList name).map (·.2)
      some ((held.getD "").toList, length + 1)
  | _ => none

/-- A value with the names assigned before it replaced. -/
def fill (known : List (String × String)) (value : List Char) : List Char :=
  Id.run (replace (mentioned? known) pure 0 value)

/-- The line breaks that a value in double quotes names. -/
def lineBreaks : List Char → List Char
  | [] => []
  | '\\' :: 'n' :: rest => '\n' :: lineBreaks rest
  | '\\' :: 'r' :: rest => '\r' :: lineBreaks rest
  | '\\' :: character :: rest => '\\' :: character :: lineBreaks rest
  | character :: rest => character :: lineBreaks rest

/-- A value without the backslashes that protect other characters than a dollar sign. -/
def unescaped : List Char → List Char
  | [] => []
  | '\\' :: '$' :: rest => '\\' :: '$' :: unescaped rest
  | '\\' :: character :: rest => character :: unescaped rest
  | character :: rest => character :: unescaped rest

/-- The text up to the closing quote and the text after it.  A quote after a backslash does not
close. -/
def closing? (quote : Char) : (previous : Char) → List Char → Option (List Char × List Char)
  | _, [] => none
  | previous, character :: rest =>
    if character == quote && previous != '\\' then some ([], rest)
    else (closing? quote character rest).map fun (found, after) => (character :: found, after)

/-- A line, last character first, up to its last comment. -/
def beforeComment? : List Char → Option (List Char)
  | [] => none
  | '#' :: previous :: rest =>
    if isGap previous then some (previous :: rest) else beforeComment? (previous :: rest)
  | _ :: rest => beforeComment? rest

def bareValue (line : List Char) : List Char :=
  let kept := match beforeComment? line.reverse with
    | some reversed => reversed
    | none => line.reverse
  ((kept.dropWhile isGap).reverse).dropWhile isGap

/-- The value of an assignment and the text after it. -/
def value? (known : List (String × String)) : List Char → Option (List Char × List Char)
  | '\'' :: text =>
    (closing? '\'' '\'' text).map fun (found, rest) =>
      ((found.reverse.dropWhile (· == '\'')).reverse, rest)
  | '"' :: text =>
    (closing? '"' '"' text).map fun (found, rest) =>
      let held := (found.reverse.dropWhile (· == '"')).reverse
      (fill known (unescaped (lineBreaks held)), rest)
  | text =>
    some (fill known (bareValue (text.takeWhile (!isLineEnd ·))), text.dropWhile (!isLineEnd ·))

/-- The assignments of a text, after those already known.  Every assignment takes a character at
least, which bounds their number. -/
def statements : (most : Nat) → (known : List (String × String)) → List Char →
    Option (List (String × String))
  | 0, known, _ => some known
  | most + 1, known, text =>
    match nextStatement false text with
    | [] => some known
    | statement => do
      let (name, rest) ← name? (withoutExport statement)
      let (value, rest) ← value? known rest
      statements most (known ++ [(name, String.ofList value)]) rest

/-- The assignments of an environment file; `none` when it cannot be read. -/
def parse? (text : List Char) : Option (Fields String) :=
  (statements (text.length + 1) [] (withoutReturns text)).map Fields.ofList

def isHeld (assignment : String × String) : Bool :=
  assignment.1 != "" && !assignment.2.toList.contains '\x00'

/-- Add assignments to those made before, which stay. -/
def add (held : Fields String) (assignments : Fields String) : Fields String :=
  (assignments.filter isHeld).foldl (fun held assignment =>
    if Fields.has held assignment.1 then held
    else Fields.set assignment.1 assignment.2 held) held

end StepQuery.Environment
