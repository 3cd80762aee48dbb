import StepQuery.Casting
import StepQuery.Pipeline.Record

/-!
The editable form of a condition: a tree of groups, each listing its comparisons before its nested
groups.  A group without operator holds exactly one comparison.
-/

namespace StepQuery

/-- A group of the editor.  A missing comparison is kept, so that a group can be refused for it. -/
inductive Group where
  | node (operator : String) (comparisons : List (Option Comparison)) (groups : List Group)
deriving Inhabited

namespace Group

/-- The levels of nesting that the editor shows. -/
def deepest : Nat := 2

def comparison? : Condition → Option Comparison
  | .simple comparison => some comparison
  | _ => none

mutual

def ofCondition : Condition → Group
  | .absent => .node "" [] []
  | .simple comparison => .node "" [some comparison] []
  | .all children => .node "and" ((children.filterMap comparison?).map some) (groupsOf children)
  | .any children => .node "or" ((children.filterMap comparison?).map some) (groupsOf children)

/-- The children that are groups of their own. -/
def groupsOf : List Condition → List Group
  | [] => []
  | .simple _ :: rest => groupsOf rest
  | child :: rest => ofCondition child :: groupsOf rest

end

/-- The comparisons of a group, none of which may be missing. -/
def leaves : List (Option Comparison) → Attempt (List Condition)
  | [] => .ok []
  | none :: _ => Attempt.fail .absentTreeCondition
  | some comparison :: rest => do return .simple comparison :: (← leaves rest)

def combine (operator : String) (simple groups : List Condition) : Attempt Condition :=
  if operator == "and" then .ok (.all (simple ++ groups))
  else if operator == "or" then .ok (.any (simple ++ groups))
  else if operator == "" then
    match simple, groups with
    | [only], [] => .ok only
    | _, _ => Attempt.fail (.operatorless simple.length groups.length)
  else Attempt.fail (.unknownTreeOperator operator)

mutual

def toCondition : Group → Attempt Condition
  | .node operator comparisons groups => do
    let simple ← leaves comparisons
    let nested ← conditionsOf 0 groups
    combine operator simple nested

def conditionsOf : (index : Nat) → List Group → Attempt (List Condition)
  | _, [] => .ok []
  | index, group :: rest => do
    let first ← Attempt.inside (.group index) (toCondition group)
    let others ← conditionsOf (index + 1) rest
    return first :: others

end

mutual

/-- The number of levels that combine conditions. -/
def depth : Group → Nat
  | .node operator _ groups => if operator == "" then 0 else 1 + depthOf groups

def depthOf : List Group → Nat
  | [] => 0
  | group :: rest => max (depth group) (depthOf rest)

end

/-- Check that a group fits in the editor. -/
def validate (group : Group) : Attempt Unit :=
  if deepest < group.depth then Attempt.fail (.tooDeep group.depth deepest) else .ok ()

end Group

namespace Condition

def castText (columnType : ColumnType) : Value → Value
  | .text text =>
    match Casting.cast text columnType with
    | .ok value => value
    | .error _ => .text text
  | other => other

/-- Cast the value of a comparison, or the items of a list, where they are texts. -/
def castValue (columnType : ColumnType) : Value → Value
  | .list items => .list (items.map (castText columnType))
  | value => castText columnType value

def castComparison (types : Fields ColumnType) (comparison : Comparison) : Comparison :=
  match Fields.get? types comparison.column with
  | none => comparison
  | some columnType => { comparison with value := castValue columnType comparison.value }

mutual

/-- Cast the texts compared with typed columns; a text that does not fit its type stays. -/
def castValues (types : Fields ColumnType) : Condition → Condition
  | .absent => .absent
  | .simple comparison => .simple (castComparison types comparison)
  | .all children => .all (castAll types children)
  | .any children => .any (castAll types children)

def castAll (types : Fields ColumnType) : List Condition → List Condition
  | [] => []
  | child :: rest => castValues types child :: castAll types rest

end

end Condition

end StepQuery
