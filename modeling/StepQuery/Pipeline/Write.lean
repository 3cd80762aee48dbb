import StepQuery.Pipeline.Basic
import StepQuery.Json.Printer

/-!
Writing pipelines as documents: the name of a step first, then its parameters in a fixed order.
Absent lists are written as `null`, and a few parameters are left out when they are empty.  Only
numbers that JSON cannot write make the writing fail.
-/

namespace StepQuery

def Json.texts (values : List String) : Json := .array (values.map .string)

/-- A list of names, `null` when it is absent. -/
def ColumnList.toJson : ColumnList → Json
  | none => .null
  | some columns => Json.texts columns

def ColumnPairs.toJson : ColumnPairs → Json
  | none => .null
  | some pairs => .array (pairs.map fun pair => Json.texts [pair.1, pair.2])

namespace Condition

def comparisonJson (comparison : Comparison) : Option Json := do
  return .object [("column", .string comparison.column), ("operator", .string comparison.operator),
    ("value", ← comparison.value.toJson?)]

mutual

def toJson? : Condition → Option Json
  | .absent => some .null
  | .simple comparison => comparisonJson comparison
  | .all children => (toItems? children).map fun items => .object [("and", .array items)]
  | .any children => (toItems? children).map fun items => .object [("or", .array items)]

def toItems? : List Condition → Option (List Json)
  | [] => some []
  | child :: rest => do
    let item ← toJson? child
    let others ← toItems? rest
    return item :: others

end

end Condition

namespace Branch

def toMembers? : Branch → Option (List (String × Json))
  | .last test consequent alternative => do
    return [("if", ← test.toJson?), ("then", ← consequent.toJson?),
      ("else", ← alternative.toJson?)]
  | .chain test consequent next => do
    return [("if", ← test.toJson?), ("then", ← consequent.toJson?),
      ("else", .object (← toMembers? next))]

end Branch

namespace Operation

/-- A list that is left out when there is nothing in it. -/
def optionalTexts (name : String) (columns : ColumnList) : List (String × Json) :=
  match columns with
  | none | some [] => []
  | some columns => [(name, Json.texts columns)]

/-- A text that is left out when it is empty. -/
def optionalText (name value : String) : List (String × Json) :=
  if value == "" then [] else [(name, .string value)]

def pairItems? : List (Value × Value) → Option (List Json)
  | [] => some []
  | (old, new) :: rest => do
    let pair := Json.array [← old.toJson?, ← new.toJson?]
    return pair :: (← pairItems? rest)

def sortKeyJson (key : SortKey) : Json :=
  .object [("column", .string key.column), ("order", .string key.order)]

def aggregationJson (aggregation : Aggregation) : Json :=
  .object [("columns", aggregation.columns.toJson), ("newcolumns", aggregation.newColumns.toJson),
    ("aggfunction", .string aggregation.function)]

def listJson {α : Type} (write : α → Json) : Option (List α) → Json
  | none => .null
  | some items => .array (items.map write)

/-- The parameters of an operation in their order. -/
def toMembers? : Operation → Option (List (String × Json))
  | .filter condition => do return [("condition", ← condition.toJson?)]
  | .formula newColumn expression => do
    return [("new_column", .string newColumn), ("formula", ← expression.toJson?)]
  | .top groups rankOn order limit => do
    return optionalTexts "groups" groups ++
      [("rank_on", .string rankOn), ("sort", .string order), ("limit", ← limit.toJson?)]
  | .fillna columns value => do
    return [("columns", columns.toJson), ("value", ← value.toJson?)]
  | .replace column pairs => do
    let written ← match pairs with
      | none => some Json.null
      | some pairs => (pairItems? pairs).map .array
    return [("search_column", .string column), ("to_replace", written)]
  | .dateExtract column parts newColumns =>
    some ([("column", .string column), ("date_info", parts.toJson)] ++
      optionalTexts "new_columns" newColumns)
  | .ifThenElse newColumn branch => do
    return ("new_column", .string newColumn) :: (← branch.toMembers?)
  | .select columns => some [("columns", columns.toJson)]
  | .delete columns => some [("columns", columns.toJson)]
  | .rename pairs => some [("to_rename", pairs.toJson)]
  | .sort keys => some [("columns", listJson sortKeyJson keys)]
  | .aggregate on aggregations keepRows =>
    some ([("on", on.toJson), ("aggregations", listJson aggregationJson aggregations)] ++
      (if keepRows then [("keep_original_granularity", .bool true)] else []))
  | .argmax column groups => some (("column", .string column) :: optionalTexts "groups" groups)
  | .argmin column groups => some (("column", .string column) :: optionalTexts "groups" groups)
  | .lowercase column => some [("column", .string column)]
  | .uppercase column => some [("column", .string column)]
  | .concatenate columns separator newColumn =>
    some [("columns", columns.toJson), ("separator", .string separator),
      ("new_column_name", .string newColumn)]
  | .text newColumn content => do
    return [("new_column", .string newColumn), ("text", ← content.toJson?)]
  | .duplicate column newColumn =>
    some [("column", .string column), ("new_column_name", .string newColumn)]
  | .uniqueGroups on => some [("on", on.toJson)]
  | .toDate column format => some (("column", .string column) :: optionalText "format" format)
  | .fromDate column format => some [("column", .string column), ("format", .string format)]
  | .substring column first last newColumn =>
    some ([("column", .string column), ("start_index", .number (Decimal.integerText first)),
      ("end_index", .number (Decimal.integerText last))] ++
      optionalText "new_column_name" newColumn)
  | .trim columns => some [("columns", columns.toJson)]
  | .percentage column group newColumn =>
    some (("column", .string column) :: optionalTexts "group" group ++
      optionalText "new_column_name" newColumn)
  | .cumSum pairs reference groups =>
    some ([("to_cumsum", pairs.toJson), ("reference_column", .string reference)] ++
      optionalTexts "groupby" groups)
  | .convert columns dataType =>
    some [("columns", columns.toJson), ("data_type", .string dataType)]
  | .compareText newColumn first second =>
    some [("new_column_name", .string newColumn), ("str1", .string first),
      ("str2", .string second)]
  | .custom query => do return [("query", ← query.toJson?)]

end Operation

namespace Step

mutual

def toJson? : Step → Option Json
  | .domain name => some (.object [("name", .string "domain"), ("domain", .string name)])
  | .append none => some (.object [("name", .string "append"), ("pipelines", .null)])
  | .append (some sources) => do
    return .object [("name", .string "append"), ("pipelines", .array (← referencesJson? sources))]
  | .join right type on => do
    return .object [("name", .string "join"), ("right_pipeline", ← referenceJson? right),
      ("type", .string type), ("on", on.toJson)]
  | .transform operation => do
    return .object (("name", .string operation.name) :: (← operation.toMembers?))

def referenceJson? : Reference → Option Json
  | .named name => some (.string name)
  | .inline steps => (stepsJson? steps).map .array

def referencesJson? : List Reference → Option (List Json)
  | [] => some []
  | reference :: rest => do
    let first ← referenceJson? reference
    let others ← referencesJson? rest
    return first :: others

def stepsJson? : List Step → Option (List Json)
  | [] => some []
  | step :: rest => do
    let first ← toJson? step
    let others ← stepsJson? rest
    return first :: others

end

end Step

namespace Pipeline

def toJson? (pipeline : Pipeline) : Option Json := (Step.stepsJson? pipeline).map .array

end Pipeline

namespace Scope

def membersJson? : List (String × Pipeline) → Option (List (String × Json))
  | [] => some []
  | (name, pipeline) :: rest => do
    let first ← Pipeline.toJson? pipeline
    let others ← membersJson? rest
    return (name, first) :: others

def toJson? (scope : Scope) : Option Json := (membersJson? scope).map .object

end Scope

end StepQuery
