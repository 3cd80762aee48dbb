import StepQuery.Yaml.Flow

/-!
Block documents.  A document is a list of lines, each split into its indentation and what follows;
when a dash or a key has been read, the rest of its line is looked at as a line of its own, further
to the right.
-/

namespace StepQuery.Yaml

structure Line where
  indent : Nat
  content : List Char

def line (text : List Char) : Line :=
  ⟨(text.takeWhile (· == ' ')).length, text.dropWhile (· == ' ')⟩

/-- The texts between line breaks; a carriage return before a break belongs to it. -/
def splitLines : List Char → List (List Char)
  | [] => []
  | '\r' :: '\n' :: rest => [] :: splitLines rest
  | '\n' :: rest => [] :: splitLines rest
  | character :: rest =>
    match splitLines rest, rest with
    | found :: others, '\n' :: _ => (character :: found) :: others
    | found :: others, '\r' :: '\n' :: _ => (character :: found) :: others
    | [], _ => [[character]]
    | found :: others, _ => (character :: found) :: others

def raw (line : Line) : List Char := List.replicate line.indent ' ' ++ line.content

def isBlankLine (line : Line) : Bool := line.content.all isGap

def isComment (line : Line) : Bool := line.content.head? == some '#'

def skipIgnored (lines : List Line) : List Line :=
  lines.dropWhile fun line => isBlankLine line || isComment line

/-- Whether a content begins an item of a block list. -/
def isDash : List Char → Bool
  | ['-'] => true
  | '-' :: next :: _ => isGap next
  | _ => false

/-- The text before a key's colon on this line, and the text after it. -/
def plainKey? : (afterGap : Bool) → List Char → Option (List Char × List Char)
  | _, [] => none
  | afterGap, character :: rest =>
    if character == '#' && afterGap then none
    else if character == ':' && (rest.isEmpty || rest.head?.any isGap) then some ([], rest)
    else (plainKey? (isGap character) rest).map fun (found, rest) => (character :: found, rest)

def trimEnd (text : List Char) : List Char := (text.reverse.dropWhile isGap).reverse

/-- The key that a content begins with, and the text after its colon. -/
def key? (content : List Char) : Option (String × List Char) :=
  match content with
  | [] => none
  | first :: rest =>
    if first == '"' || first == '\'' then do
      let (found, rest) ← quotedScalar? content
      match rest.dropWhile isGap with
      | ':' :: after => if after.isEmpty || after.head?.any isGap then some (found, after) else none
      | _ => none
    else if beginsPlain first rest.head? then do
      let (found, after) ← plainKey? false content
      match found with
      | [] => none
      | _ => (scalarText? (ofPlain (trimEnd found))).map fun key => (key, after)
    else none

/-- The characters of a plain scalar on one line, and whether a comment followed. -/
def plainLine : (afterGap : Bool) → List Char → List Char × Bool
  | _, [] => ([], false)
  | afterGap, character :: rest =>
    if character == '#' && afterGap then ([], true)
    else
      let (found, comment) := plainLine (isGap character) rest
      (character :: found, comment)

/-- The lines that continue a plain scalar: those indented enough, up to a comment.  A line that
looks like a key cannot continue one. -/
def continuation (least : Nat) : List Line → Option (List Char × List Line)
  | [] => some ([], [])
  | line :: rest =>
    if isBlankLine line then do
      let (found, rest') ← continuation least rest
      if found.isEmpty then return ([], line :: rest) else return ('\n' :: found, rest')
    else if line.indent < least || isComment line then some ([], line :: rest)
    else if (plainKey? false line.content).isSome then none
    else do
      let (words, comment) := plainLine false line.content
      let (found, rest) ← if comment then some ([], rest) else continuation least rest
      return ('\n' :: trimEnd words ++ found, rest)

/-- A plain scalar that begins with the given content. -/
def plainScalar (least : Nat) (content : List Char) (rest : List Line) :
    Option (Yaml × List Line) :=
  if (plainKey? false content).isSome then none
  else do
    let (words, comment) := plainLine false content
    let (found, rest) ← if comment then some ([], rest) else continuation least rest
    return (ofPlain (foldLines (trimEnd words ++ found)), rest)

/-- What becomes of the line breaks at the end of a block scalar. -/
inductive Chomping where
  | clip
  | strip
  | keep
deriving DecidableEq

/-- The signs after the mark of a block scalar: an indentation, a treatment of the end, and at most
a comment. -/
def blockHeader? : List Char → (indent : Option Nat) → Chomping →
    Option (Option Nat × Chomping)
  | [], indent, chomping => some (indent, chomping)
  | '+' :: rest, indent, _ => blockHeader? rest indent .keep
  | '-' :: rest, indent, _ => blockHeader? rest indent .strip
  | character :: rest, indent, chomping =>
    if '1' ≤ character && character ≤ '9' then
      blockHeader? rest (some (character.toNat - 48)) chomping
    else if isGap character then
      match rest.dropWhile isGap with
      | [] => some (indent, chomping)
      | '#' :: _ => some (indent, chomping)
      | _ => none
    else none

/-- The lines of a block scalar without their indentation, and the lines after it. -/
def blockLines (indent : Nat) : List Line → List (List Char) × List Line
  | [] => ([], [])
  | line :: rest =>
    if line.content.isEmpty || indent ≤ line.indent then
      let (found, rest) := blockLines indent rest
      ((raw line).drop indent :: found, rest)
    else ([], line :: rest)

/-- Join the lines of a folded scalar.  A break between two plain lines is a space; blank and
further indented lines keep their breaks. -/
def foldBlock : (started : Bool) → (previousPlain : Bool) → (breaks : Nat) →
    List (List Char) → List Char
  | _, _, _, [] => []
  | started, previousPlain, breaks, line :: rest =>
    match line with
    | [] => foldBlock started previousPlain (breaks + 1) rest
    | first :: _ =>
      let isPlain := !isGap first
      let separator :=
        if !started then List.replicate breaks '\n'
        else if previousPlain && isPlain then
          if breaks == 0 then [' '] else List.replicate breaks '\n'
        else List.replicate (breaks + 1) '\n'
      separator ++ line ++ foldBlock true isPlain 0 rest

def joinLines : List (List Char) → List Char
  | [] => []
  | [line] => line
  | line :: rest => line ++ '\n' :: joinLines rest

/-- A literal or folded block scalar whose mark has been read. -/
def blockScalar (fold : Bool) (least : Nat) (header : List Char) (rest : List Line) :
    Option (Yaml × List Line) := do
  let (explicit, chomping) ← blockHeader? header none .clip
  let indent := match explicit with
    | some n => least - 1 + n
    | none =>
      match rest.find? fun line => !line.content.isEmpty with
      | some line => if least ≤ line.indent then line.indent else least
      | none => least
  let (lines, rest) := blockLines indent rest
  let body := (lines.reverse.dropWhile List.isEmpty).reverse
  let trailing := lines.length - body.length
  let text := if fold then foldBlock false true 0 body else joinLines body
  let ending := match chomping with
    | .strip => []
    | .clip => if body.isEmpty then [] else ['\n']
    | .keep => List.replicate (if body.isEmpty then trailing else trailing + 1) '\n'
  return (.text (String.ofList (text ++ ending)), rest)

/-- The lines after a scalar or collection that ended inside a line: only a comment may follow on
that line. -/
def linesAfter? (rest : List Char) : Option (List Line) :=
  let tail := rest.takeWhile (· != '\n')
  let gap := tail.takeWhile isGap
  match tail.dropWhile isGap with
  | [] => some ((splitLines ((rest.dropWhile (· != '\n')).drop 1)).map line)
  | '#' :: _ =>
    if gap.isEmpty then none
    else some ((splitLines ((rest.dropWhile (· != '\n')).drop 1)).map line)
  | _ => none

/-- The content of a line and the lines after it as one text. -/
def stream (content : List Char) (rest : List Line) : List Char :=
  content ++ rest.flatMap fun line => '\n' :: raw line

/-- A value that begins inside a line. -/
def inlineValue (least : Nat) (content : List Char) (rest : List Line) :
    Option (Yaml × List Line) :=
  match content with
  | [] => some (.null, rest)
  | '|' :: header => blockScalar false least header rest
  | '>' :: header => blockScalar true least header rest
  | first :: others =>
    if first == '[' || first == '\x7b' then do
      let input := stream content rest
      let (value, after) ← flowValue (input.length + 1) ⟨0, 0⟩ input
      return (value, ← linesAfter? after)
    else if first == '"' || first == '\'' then do
      let (value, after) ← quotedScalar? (stream content rest)
      return (.text value, ← linesAfter? after)
    else if beginsPlain first others.head? then plainScalar least content rest
    else none

/-- Whether nothing but a comment is left of a line. -/
def isEmptyRest (content : List Char) : Bool :=
  match content.dropWhile isGap with
  | [] => true
  | first :: _ => first == '#' && content.head?.any isGap

mutual

/-- The node on the first lines, if they are indented enough; otherwise nothing is there. -/
def node : (fuel : Nat) → (least : Nat) → List Line → Option (Yaml × List Line)
  | 0, _, _ => none
  | fuel + 1, least, lines =>
    match skipIgnored lines with
    | [] => some (.null, [])
    | line :: rest =>
      if line.indent < least then some (.null, line :: rest)
      else if line.content.head? == some '\t' then none
      else if isDash line.content then do
        let (items, rest) ← sequence fuel line.indent (line :: rest)
        return (.list items, rest)
      else if (key? line.content).isSome then do
        let (entries, rest) ← mapping fuel line.indent [] (line :: rest)
        return (.map entries, rest)
      else inlineValue least line.content rest

/-- The items of a block list whose dashes stand at the given indentation. -/
def sequence : (fuel : Nat) → (indent : Nat) → List Line → Option (List Yaml × List Line)
  | 0, _, _ => none
  | fuel + 1, indent, lines =>
    match skipIgnored lines with
    | [] => some ([], [])
    | line :: rest =>
      if line.indent == indent && isDash line.content then do
        let after := line.content.drop 1
        let (item, rest) ←
          if isEmptyRest after then node fuel (indent + 1) rest
          else
            let gap := (after.takeWhile isGap).length
            node fuel (indent + 1) (⟨indent + 1 + gap, after.dropWhile isGap⟩ :: rest)
        let (others, rest) ← sequence fuel indent rest
        return (item :: others, rest)
      else if indent < line.indent then none
      else some ([], line :: rest)

/-- The entries of a block map whose keys stand at the given indentation.  A list that is the value
of a key may stand at the same indentation. -/
def mapping : (fuel : Nat) → (indent : Nat) → (seen : List String) → List Line →
    Option (List (String × Yaml) × List Line)
  | 0, _, _, _ => none
  | fuel + 1, indent, seen, lines =>
    match skipIgnored lines with
    | [] => some ([], [])
    | line :: rest =>
      if line.indent < indent then some ([], line :: rest)
      else if indent < line.indent then none
      else
        match key? line.content with
        | none => none
        | some (key, after) =>
          if seen.contains key then none
          else do
            let (value, rest) ←
              if isEmptyRest after then
                match skipIgnored rest with
                | next :: others =>
                  if next.indent == indent && isDash next.content then do
                    let (items, rest) ← sequence fuel indent (next :: others)
                    some (Yaml.list items, rest)
                  else node fuel (indent + 1) rest
                | [] => some (Yaml.null, [])
              else inlineValue (indent + 1) (after.dropWhile isGap) rest
            let (others, rest) ← mapping fuel indent (key :: seen) rest
            return ((key, value) :: others, rest)

end

/-- Whether a line ends or begins a document. -/
def isMarker (mark : List Char) (line : Line) : Bool :=
  line.indent == 0 && line.content.take 3 == mark && (line.content.drop 3).all isGap

def firstDocument (lines : List Line) : List Line :=
  let body := match skipIgnored lines with
    | first :: rest => if isMarker "---".toList first then rest else lines
    | [] => []
  body.takeWhile fun line => !(isMarker "---".toList line || isMarker "...".toList line)

/-- Read the first document of a text; `none` when it is not well formed. -/
def parse? (text : List Char) : Option Yaml := do
  let lines := firstDocument ((splitLines text).map line)
  let (value, rest) ← node (2 * text.length + 2) 0 lines
  if (skipIgnored rest).isEmpty then return value else none

end StepQuery.Yaml
