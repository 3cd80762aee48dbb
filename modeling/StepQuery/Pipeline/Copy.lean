import StepQuery.Pipeline.Basic

/-!
Copies of pipelines, built anew part by part.  An absent list stays absent and an empty one stays
empty.  A copy is equal to what it was made from: `copy_eq` says so for every kind of part.
-/

namespace StepQuery

namespace Value

mutual

/-- Lists and maps are copied down to the values that hold no others. -/
def copy : Value → Value
  | .list items => .list (copyItems items)
  | .map fields => .map (copyFields fields)
  | other => other

def copyItems : List Value → List Value
  | [] => []
  | item :: rest => copy item :: copyItems rest

def copyFields : List (String × Value) → List (String × Value)
  | [] => []
  | (name, value) :: rest => (name, copy value) :: copyFields rest

end

mutual

@[simp]
theorem copy_eq : (value : Value) → value.copy = value
  | .list items => by rw [copy, copyItems_eq items]
  | .map fields => by rw [copy, copyFields_eq fields]
  | .null | .bool _ | .text _ | .int _ | .uint _ | .single _ | .double _ | .decimal _ | .bytes _
  | .date _ => by rw [copy] <;> simp

theorem copyItems_eq : (items : List Value) → copyItems items = items
  | [] => rfl
  | item :: rest => by rw [copyItems, copy_eq item, copyItems_eq rest]

theorem copyFields_eq : (fields : List (String × Value)) → copyFields fields = fields
  | [] => rfl
  | (name, value) :: rest => by rw [copyFields, copy_eq value, copyFields_eq rest]

end

end Value

/-- A copy of a list that may be absent. -/
def copyList {α : Type} : Option (List α) → Option (List α)
  | none => none
  | some items => some ([] ++ items)

@[simp]
theorem copyList_eq {α : Type} (items : Option (List α)) : copyList items = items := by
  cases items <;> rfl

namespace Condition

mutual

def copy : Condition → Condition
  | .absent => .absent
  | .simple comparison => .simple { comparison with value := comparison.value.copy }
  | .all children => .all (copies children)
  | .any children => .any (copies children)

def copies : List Condition → List Condition
  | [] => []
  | child :: rest => copy child :: copies rest

end

mutual

@[simp]
theorem copy_eq : (condition : Condition) → condition.copy = condition
  | .absent => by rw [copy]
  | .simple comparison => by rw [copy, Value.copy_eq]
  | .all children => by rw [copy, copies_eq children]
  | .any children => by rw [copy, copies_eq children]

theorem copies_eq : (children : List Condition) → copies children = children
  | [] => rfl
  | child :: rest => by rw [copies, copy_eq child, copies_eq rest]

end

end Condition

namespace Branch

def copy : Branch → Branch
  | .last test consequent alternative => .last test.copy consequent.copy alternative.copy
  | .chain test consequent next => .chain test.copy consequent.copy (copy next)

@[simp]
theorem copy_eq (branch : Branch) : branch.copy = branch := by
  induction branch with
  | last test consequent alternative => simp [copy]
  | chain test consequent next inductionHypothesis => simp [copy, inductionHypothesis]

end Branch

namespace Aggregation

def copy (aggregation : Aggregation) : Aggregation where
  columns := copyList aggregation.columns
  newColumns := copyList aggregation.newColumns
  function := aggregation.function

@[simp]
theorem copy_eq (aggregation : Aggregation) : aggregation.copy = aggregation := by
  simp [copy]

end Aggregation

namespace Operation

def copy : Operation → Operation
  | .filter condition => .filter condition.copy
  | .formula newColumn expression => .formula newColumn expression.copy
  | .top groups rankOn order limit => .top (copyList groups) rankOn order limit.copy
  | .fillna columns value => .fillna (copyList columns) value.copy
  | .replace column pairs =>
    .replace column (pairs.map fun pairs => pairs.map fun pair => (pair.1.copy, pair.2.copy))
  | .dateExtract column parts newColumns =>
    .dateExtract column (copyList parts) (copyList newColumns)
  | .ifThenElse newColumn branch => .ifThenElse newColumn branch.copy
  | .select columns => .select (copyList columns)
  | .delete columns => .delete (copyList columns)
  | .rename pairs => .rename (copyList pairs)
  | .sort keys => .sort (copyList keys)
  | .aggregate on aggregations keepRows =>
    .aggregate (copyList on)
      (aggregations.map fun list => list.map fun aggregation => aggregation.copy) keepRows
  | .argmax column groups => .argmax column (copyList groups)
  | .argmin column groups => .argmin column (copyList groups)
  | .lowercase column => .lowercase column
  | .uppercase column => .uppercase column
  | .concatenate columns separator newColumn =>
    .concatenate (copyList columns) separator newColumn
  | .text newColumn content => .text newColumn content.copy
  | .duplicate column newColumn => .duplicate column newColumn
  | .uniqueGroups on => .uniqueGroups (copyList on)
  | .toDate column format => .toDate column format
  | .fromDate column format => .fromDate column format
  | .substring column first last newColumn => .substring column first last newColumn
  | .trim columns => .trim (copyList columns)
  | .percentage column group newColumn => .percentage column (copyList group) newColumn
  | .cumSum pairs reference groups => .cumSum (copyList pairs) reference (copyList groups)
  | .convert columns dataType => .convert (copyList columns) dataType
  | .compareText newColumn first second => .compareText newColumn first second
  | .custom query => .custom query.copy

@[simp]
theorem copy_eq (operation : Operation) : operation.copy = operation := by
  cases operation <;> simp [copy]

end Operation

namespace Step

mutual

def copy : Step → Step
  | .domain name => .domain name
  | .append none => .append none
  | .append (some sources) => .append (some (copyReferences sources))
  | .join right type on => .join (copyReference right) type (copyList on)
  | .transform operation => .transform operation.copy

def copyReference : Reference → Reference
  | .named name => .named name
  | .inline steps => .inline (copySteps steps)

def copyReferences : List Reference → List Reference
  | [] => []
  | first :: rest => copyReference first :: copyReferences rest

def copySteps : List Step → List Step
  | [] => []
  | first :: rest => copy first :: copySteps rest

end

mutual

@[simp]
theorem copy_eq : (step : Step) → step.copy = step
  | .domain name => by rw [copy]
  | .append none => by rw [copy]
  | .append (some sources) => by rw [copy, copyReferences_eq sources]
  | .join right type on => by rw [copy, copyReference_eq right, copyList_eq]
  | .transform operation => by rw [copy, Operation.copy_eq]

theorem copyReference_eq : (reference : Reference) → copyReference reference = reference
  | .named name => by rw [copyReference]
  | .inline steps => by rw [copyReference, copySteps_eq steps]

theorem copyReferences_eq : (references : List Reference) →
    copyReferences references = references
  | [] => rfl
  | first :: rest => by rw [copyReferences, copyReference_eq first, copyReferences_eq rest]

theorem copySteps_eq : (steps : List Step) → copySteps steps = steps
  | [] => rfl
  | first :: rest => by rw [copySteps, copy_eq first, copySteps_eq rest]

end

end Step

namespace Pipeline

def copy (pipeline : Pipeline) : Pipeline := Step.copySteps pipeline

@[simp]
theorem copy_eq (pipeline : Pipeline) : pipeline.copy = pipeline := Step.copySteps_eq pipeline

end Pipeline

end StepQuery
