import StepQuery.Pipeline.Basic
import StepQuery.Template.Basic

/-!
Conditional values as sentences for people, with the connecting words and the template expressions
marked up.
-/

namespace StepQuery

namespace Summary

def emphasized (text : String) : String := "<em>" ++ text ++ "</em>"

def connective (word : String) : String := " <strong>" ++ word ++ "</strong> "

def emptyCondition : String := emphasized "empty condition"

/-- How an operator is said; one that is not known stands as it is. -/
def verb? (operator : String) : Option String :=
  match operator with
  | "eq" => some "is"
  | "ne" => some "is not"
  | "gt" => some ">"
  | "ge" => some ">="
  | "lt" => some "<"
  | "le" => some "<="
  | "in" => some "is in"
  | "nin" => some "is not in"
  | "matches" => some "matches"
  | "notmatches" => some "does not match"
  | "isnull" => some "is null"
  | "notnull" => some "is not null"
  | _ => none

/-- The values that say nothing about a column without a name. -/
def isBlank : Value → Bool
  | .null => true
  | .text content => content == ""
  | .bool held => !held
  | .double number => number == 0
  | .int number => number == 0
  | _ => false

/-- The expression that stands alone between delimiters, without the blanks around it. -/
def expression? (delimiters : Delimiters) (content : List Char) : Option (List Char) :=
  let trimmed := Text.trim content
  if delimiters.start.length + delimiters.finish.length ≤ trimmed.length &&
      delimiters.start.isPrefixOf trimmed && delimiters.finish.isSuffixOf trimmed then do
    let inner ← Template.slice? trimmed delimiters.start.length
      (trimmed.length - delimiters.finish.length)
    if Template.contains inner delimiters.start || Template.contains inner delimiters.finish then none
    else some (Text.trim inner)
  else none

mutual

/-- A value in a sentence: texts are quoted, lone template expressions emphasized. -/
def value (delimiters : Delimiters) : Value → String
  | .null => "null"
  | .text content =>
    match expression? delimiters content.toList with
    | some expression => emphasized (String.ofList expression)
    | none => "'" ++ content ++ "'"
  | .list items => String.intercalate ", " (values delimiters items)
  | other => other.written

def values (delimiters : Delimiters) : List Value → List String
  | [] => []
  | first :: rest => value delimiters first :: values delimiters rest

end

def comparison (delimiters : Delimiters) (held : Comparison) : String :=
  if held.column == "" && isBlank held.value then emptyCondition
  else
    let said := held.column ++ " " ++ (verb? held.operator).getD held.operator
    if held.isNullCheck then said
    else if held.isMultiValue then said ++ " (" ++ value delimiters held.value ++ ")"
    else said ++ " " ++ value delimiters held.value

def combined (outermost : Bool) (word : String) (parts : List String) : String :=
  let joined := String.intercalate (connective word) parts
  if outermost then joined else "(" ++ joined ++ ")"

mutual

/-- A condition as a sentence.  A combination inside another one stands in parentheses. -/
def condition (delimiters : Delimiters) (outermost : Bool) : Condition → String
  | .absent => emptyCondition
  | .simple held => comparison delimiters held
  | .all children => combined outermost "AND" (conditions delimiters children)
  | .any children => combined outermost "OR" (conditions delimiters children)

def conditions (delimiters : Delimiters) : List Condition → List String
  | [] => []
  | first :: rest => condition delimiters false first :: conditions delimiters rest

end

end Summary

namespace Branch

/-- A conditional value as a sentence.  An alternative that is nothing is not mentioned. -/
def summary (delimiters : Delimiters) : Branch → String
  | .last test consequent alternative =>
    let said := Summary.condition delimiters true test ++ Summary.connective "THEN" ++
      Summary.value delimiters consequent
    match alternative with
    | .null => said
    | _ => said ++ Summary.connective "ELSE" ++ Summary.value delimiters alternative
  | .chain test consequent next =>
    Summary.condition delimiters true test ++ Summary.connective "THEN" ++
      Summary.value delimiters consequent ++ Summary.connective "ELSE IF" ++
      summary delimiters next

end Branch

end StepQuery
