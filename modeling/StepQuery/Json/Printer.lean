import StepQuery.Json.Basic
import StepQuery.Text.Class

/-!
Writing JSON text, on one line or indented.
-/

namespace StepQuery.Json

/-- Whether the characters that carry meaning in markup are escaped. -/
inductive Markup where
  | escaped
  | kept
deriving DecidableEq, Repr

/-- How one character stands inside a JSON text. -/
def escape (markup : Markup) (character : Char) : List Char :=
  match character with
  | '"' => ['\\', '"']
  | '\\' => ['\\', '\\']
  | '\n' => ['\\', 'n']
  | '\r' => ['\\', 'r']
  | '\t' => ['\\', 't']
  | _ =>
    let point := character.toNat
    if point == 8 then ['\\', 'b']
    else if point == 12 then ['\\', 'f']
    else if point < 32 || point == 0x2028 || point == 0x2029 then '\\' :: 'u' :: Text.hex 4 point
    else if markup == .escaped && (character == '<' || character == '>' || character == '&') then
      '\\' :: 'u' :: Text.hex 4 point
    else [character]

def quote (markup : Markup) (value : String) : String :=
  String.ofList ('"' :: value.toList.flatMap (escape markup) ++ ['"'])

mutual

/-- The document on one line, without spaces. -/
def compact (markup : Markup) : Json → String
  | .null => "null"
  | .bool true => "true"
  | .bool false => "false"
  | .number literal => literal
  | .string value => quote markup value
  | .array items => "[" ++ String.intercalate "," (compactItems markup items) ++ "]"
  | .object members => "\x7b" ++ String.intercalate "," (compactMembers markup members) ++ "\x7d"

def compactItems (markup : Markup) : List Json → List String
  | [] => []
  | item :: rest => compact markup item :: compactItems markup rest

def compactMembers (markup : Markup) : List (String × Json) → List String
  | [] => []
  | (key, value) :: rest =>
    (quote markup key ++ ":" ++ compact markup value) :: compactMembers markup rest

end

def indentation (level : Nat) : String := String.ofList ('\n' :: List.replicate (2 * level) ' ')

mutual

/-- The document with every item and member on a line of its own, two spaces a level. -/
def pretty (markup : Markup) (level : Nat) : Json → String
  | .array [] => "[]"
  | .array (item :: rest) =>
    "[" ++ String.intercalate "," (prettyItems markup (level + 1) (item :: rest)) ++
      indentation level ++ "]"
  | .object [] => "\x7b\x7d"
  | .object (member :: rest) =>
    "\x7b" ++ String.intercalate "," (prettyMembers markup (level + 1) (member :: rest)) ++
      indentation level ++ "\x7d"
  | .null => "null"
  | .bool true => "true"
  | .bool false => "false"
  | .number literal => literal
  | .string value => quote markup value

def prettyItems (markup : Markup) (level : Nat) : List Json → List String
  | [] => []
  | item :: rest => (indentation level ++ pretty markup level item) :: prettyItems markup level rest

def prettyMembers (markup : Markup) (level : Nat) : List (String × Json) → List String
  | [] => []
  | (key, value) :: rest =>
    (indentation level ++ quote markup key ++ ": " ++ pretty markup level value) ::
      prettyMembers markup level rest

end

/-- Every object with its members in ascending order, at every level. -/
def sorted : Json → Json
  | .array items => .array (sortedItems items)
  | .object members => .object (sortMembers (sortedMembers members))
  | other => other
where
  sortedItems : List Json → List Json
    | [] => []
    | item :: rest => sorted item :: sortedItems rest
  sortedMembers : List (String × Json) → List (String × Json)
    | [] => []
    | (key, value) :: rest => (key, sorted value) :: sortedMembers rest

end StepQuery.Json
