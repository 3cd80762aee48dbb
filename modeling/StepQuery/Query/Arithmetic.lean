import StepQuery.Query.Term
import StepQuery.Formula.Reader

/-!
Formulas as expressions of the database.  A quotient whose divisor is zero or null is null.
-/

namespace StepQuery

namespace Formula

/-- The expression of an operation on two expressions. -/
def operation : Operator → Term → Term → Term
  | .add, left, right => Term.call "$add" [left, right]
  | .subtract, left, right => Term.call "$subtract" [left, right]
  | .multiply, left, right => Term.call "$multiply" [left, right]
  | .remainder, left, right => Term.call "$mod" [left, right]
  | .divide, left, right =>
    Term.cond (Term.call "$in" [right, .array [Term.int 0, Term.null]]) Term.null
      (Term.call "$divide" [left, right])

def toTerm : Formula → Term
  | .number _ literal => .constant literal.toValue
  | .text _ value => Term.literal (.text value)
  | .column _ name => Term.column name
  | .negate _ operand => Term.call "$multiply" [Term.int (-1), toTerm operand]
  | .binary _ operator left right => operation operator (toTerm left) (toTerm right)

end Formula

namespace Value

/-- The expression of a value that may be a formula: texts are read as formulas, other values are
used as they are. -/
def formulaTerm : Value → Attempt Term
  | .text written => do return (← Formula.parse written).toTerm
  | .null => Attempt.fail .emptyFormula
  | other => .ok (.constant other)

end Value

end StepQuery
