import StepQuery.Value

/-!
Arithmetic formulas over columns.  Every node knows the span of the text it was read from.
-/

namespace StepQuery

/-- A stretch of a text, counted in characters. -/
structure Span where
  offset : Nat
  length : Nat
deriving DecidableEq, Repr, Inhabited

namespace Span

def finish (span : Span) : Nat := span.offset + span.length

/-- The position of the first character, counted from one. -/
def column (span : Span) : Nat := span.offset + 1

def between (start finish : Nat) : Span := ⟨start, finish - start⟩

end Span

inductive Literal where
  | whole (value : Int64)
  | fraction (value : Float)
deriving Inhabited

namespace Literal

def negate : Literal → Literal
  | .whole value => .whole (-value)
  | .fraction value => .fraction (-value)

def toValue : Literal → Value
  | .whole value => .int value
  | .fraction value => .double value

end Literal

inductive Operator where
  | add
  | subtract
  | multiply
  | divide
  | remainder
deriving DecidableEq, Repr, Inhabited

namespace Operator

def sign : Operator → Char
  | .add => '+'
  | .subtract => '-'
  | .multiply => '*'
  | .divide => '/'
  | .remainder => '%'

end Operator

inductive Formula where
  | number (span : Span) (literal : Literal)
  | text (span : Span) (value : String)
  | column (span : Span) (name : String)
  | negate (span : Span) (operand : Formula)
  | binary (span : Span) (operator : Operator) (left right : Formula)
deriving Inhabited

namespace Formula

def span : Formula → Span
  | .number span _ | .text span _ | .column span _ | .negate span _ | .binary span .. => span

def beginsWord (character : Char) : Bool := character == '_' || Text.isLetter character

def continuesWord (character : Char) : Bool := beginsWord character || Text.isDigit character

/-- Whether a column name can stand without brackets. -/
def isWord : List Char → Bool
  | [] => false
  | first :: rest => beginsWord first && rest.all continuesWord

/-- The text of a formula, every binary operation in parentheses. -/
def write : Formula → List Char
  | .number _ literal => literal.toValue.written.toList
  | .text _ value =>
    '\'' :: value.toList.flatMap (fun character =>
      if character == '\'' then ['\\', '\''] else [character]) ++ ['\'']
  | .column _ name => if isWord name.toList then name.toList else '[' :: name.toList ++ [']']
  | .negate _ operand => '-' :: write operand
  | .binary _ operator left right =>
    '(' :: write left ++ ' ' :: operator.sign :: ' ' :: write right ++ [')']

/-- The columns a formula mentions, from left to right. -/
def mentioned : Formula → List String
  | .number .. | .text .. => []
  | .column _ name => [name]
  | .negate _ operand => mentioned operand
  | .binary _ _ left right => mentioned left ++ mentioned right

/-- The names of a list, each at its first place only. -/
def distinct : List String → List String
  | [] => []
  | name :: rest => name :: (distinct rest).filter (· != name)

/-- The distinct columns of a formula in order of appearance. -/
def columns (formula : Formula) : List String := distinct formula.mentioned

end Formula

end StepQuery
