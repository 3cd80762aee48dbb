import StepQuery.Query.Term
import StepQuery.Failure
import StepQuery.Pipeline.Basic

/-!
Conditions in the two languages of the database: as documents that a row has to match, and as
expressions with a truth value.  Both know the same operators and refuse the same conditions.
-/

namespace StepQuery.Condition

def isList : Value → Bool
  | .list _ => true
  | _ => false

/-- The operator of a match document that compares with the value. -/
def matchOperator? (operator : String) : Option String :=
  match operator with
  | "ne" => some "$ne"
  | "gt" => some "$gt"
  | "ge" => some "$gte"
  | "lt" => some "$lt"
  | "le" => some "$lte"
  | "in" => some "$in"
  | "nin" => some "$nin"
  | "from" => some "$gte"
  | "until" => some "$lte"
  | _ => none

def comparisonMatch (comparison : Comparison) : Attempt (List (String × Term)) :=
  let constant := Term.constant comparison.value
  let document (term : Term) : Attempt (List (String × Term)) := .ok [(comparison.column, term)]
  match comparison.operator with
  | "eq" => document constant
  | "matches" => document (Term.apply "$regex" constant)
  | "notmatches" => document (Term.apply "$not" (Term.apply "$regex" constant))
  | "isnull" => document (Term.apply "$eq" Term.null)
  | "notnull" => document (Term.apply "$ne" Term.null)
  | operator =>
    match matchOperator? operator with
    | none => Attempt.fail (.unsupportedOperator operator)
    | some found =>
      if comparison.isMultiValue && !isList comparison.value then
        Attempt.fail (.listWanted operator comparison.column)
      else document (Term.apply found constant)

mutual

/-- The document that the rows satisfying a condition match. -/
def toMatch : Condition → Attempt (List (String × Term))
  | .absent => Attempt.fail .absentCondition
  | .simple comparison => comparisonMatch comparison
  | .all children => do return [("$and", .array (← toMatches children))]
  | .any children => do return [("$or", .array (← toMatches children))]

def toMatches : List Condition → Attempt (List Term)
  | [] => .ok []
  | child :: rest => do
    let first ← toMatch child
    let others ← toMatches rest
    return .document first :: others

end

/-- The operator of an expression that compares with the value. -/
def expressionOperator? (operator : String) : Option String :=
  match operator with
  | "eq" => some "$eq"
  | "ne" => some "$ne"
  | "gt" => some "$gt"
  | "ge" => some "$gte"
  | "lt" => some "$lt"
  | "le" => some "$lte"
  | "from" => some "$gte"
  | "until" => some "$lte"
  | _ => none

def negated (term : Term) : Term := Term.call "$not" [term]

/-- The expression of one comparison.  Regular expressions are not to be had everywhere. -/
def comparisonExpression (withPatterns : Bool) (comparison : Comparison) : Attempt Term :=
  let column := Term.column comparison.column
  let constant := Term.constant comparison.value
  let membership := Term.call "$in" [column, Term.apply "$literal" constant]
  let pattern := Term.apply "$regexMatch" (Term.fields [("input", column), ("regex", constant)])
  let whenList (term : Term) : Attempt Term :=
    if isList comparison.value then .ok term
    else Attempt.fail (.listWanted comparison.operator comparison.column)
  let whenPatterns (term : Term) : Attempt Term :=
    if withPatterns then .ok term
    else Attempt.fail (.patternInExpression comparison.operator)
  match comparison.operator with
  | "in" => whenList membership
  | "nin" => whenList (negated membership)
  | "matches" => whenPatterns pattern
  | "notmatches" => whenPatterns (negated pattern)
  | "isnull" => .ok (Term.call "$eq" [column, Term.null])
  | "notnull" => .ok (Term.call "$ne" [column, Term.null])
  | operator =>
    match expressionOperator? operator with
    | none => Attempt.fail (.unsupportedOperator operator)
    | some found => .ok (Term.call found [column, Term.literal comparison.value])

mutual

/-- The expression that is true of the rows satisfying a condition. -/
def toExpression (withPatterns : Bool) : Condition → Attempt Term
  | .absent => Attempt.fail .absentCondition
  | .simple comparison => comparisonExpression withPatterns comparison
  | .all children => do return Term.call "$and" (← toExpressions withPatterns children)
  | .any children => do return Term.call "$or" (← toExpressions withPatterns children)

def toExpressions (withPatterns : Bool) : List Condition → Attempt (List Term)
  | [] => .ok []
  | child :: rest => do
    let first ← toExpression withPatterns child
    let others ← toExpressions withPatterns rest
    return first :: others

end

end StepQuery.Condition
