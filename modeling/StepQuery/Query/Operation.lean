import StepQuery.Query.Arithmetic
import StepQuery.Query.Backend
import StepQuery.Query.Condition
import StepQuery.Query.DatePart
import StepQuery.Query.Stage
import StepQuery.Casting

/-!
The stages of the steps that transform rows.  Steps that look at a group as a whole push its rows into
one array and take them out again; the fields used for that begin with `_vqb`.
-/

namespace StepQuery

/-- Fields that stages use among themselves. -/
structure Temporary where
  rows : String
  topRows : String
  target : String
  total : String
  index : String

def temporary : Temporary where
  rows := "_vqbAppArray"
  topRows := "_vqbAppTopElems"
  target := "_vqbTarget"
  total := "_vqbTotalDenum"
  index := "_vqbIndex"

namespace Staging

/-- The names of a list that may be absent. -/
def names (columns : ColumnList) : List String := columns.getD []

def setColumn (column : String) (term : Term) : List Stage := [.addFields [(column, term)]]

/-- Fields of the same kind for several columns. -/
def forColumns (columns : ColumnList) (term : String → Term) : List (String × Term) :=
  Fields.ofList ((names columns).map fun column => (column, term column))

/-- What rows are gathered by: the given columns, or all rows together. -/
def groupId (columns : ColumnList) : Term :=
  match names columns with
  | [] => Term.null
  | _ => .document (forColumns columns Term.column)

/-- The rows of a group in one array. -/
def pushedRows : Term := Term.apply "$push" Term.root

/-- Gather rows and keep them, with further fields computed over the group. -/
def gather (columns : ColumnList) (fields : List (String × Term)) : Stage :=
  .group (Fields.ofList ([("_id", groupId columns), (temporary.rows, pushedRows)] ++ fields))

/-- Take the rows of a group out again, each with further fields. -/
def ungroup (fields : List (String × Term)) : List Stage :=
  [.unwind (Term.column temporary.rows),
    .replaceRoot (Term.call "$mergeObjects" [Term.column temporary.rows, .document fields])]

def direction (order : String) : Int := if order == "desc" then -1 else 1

/-- The first rows of every group in the order of a column. -/
def top (groups : ColumnList) (rankOn order : String) (limit : Int64) : List Stage :=
  [.sort [(rankOn, direction order)],
    gather groups [],
    .project [(temporary.topRows,
      Term.call "$slice" [Term.column temporary.rows, .constant (.int limit)])],
    .unwind (Term.column temporary.topRows),
    .replaceRoot (Term.column temporary.topRows)]

def replace (column : String) (pairs : List (Value × Value)) : List Stage :=
  match pairs with
  | [] => []
  | _ =>
    setColumn column (Term.switch (pairs.map fun pair =>
      Term.branch (Term.call "$eq" [Term.column column, Term.literal pair.1])
        (Term.literal pair.2)) (Term.column column))

/-- The fields of the date parts, under their own names or under given ones. -/
def dateFields (column : String) : (parts newColumns : List String) →
    Attempt (List (String × Term))
  | [], _ => .ok []
  | part :: rest, newColumns => do
    let term ← DatePart.extract part column
    let name := newColumns.headD (column ++ "_" ++ part)
    let others ← dateFields column rest newColumns.tail
    return (name, term) :: others

def dateExtract (column : String) (parts newColumns : List String) : Attempt (List Stage) := do
  if !newColumns.isEmpty && newColumns.length != parts.length then
    Attempt.fail (.dateColumnCount parts.length newColumns.length)
  else return [.addFields (Fields.ofList (← dateFields column parts newColumns))]

/-- A branch as nested conditionals.  Both values are formulas. -/
def branch (withPatterns : Bool) : Branch → Attempt Term
  | .last test consequent alternative => do
    let test ← Attempt.inside .branchIf (test.toExpression withPatterns)
    let consequent ← Attempt.inside .branchThen consequent.formulaTerm
    let alternative ← Attempt.inside .branchElse alternative.formulaTerm
    return Term.apply "$cond"
      (Term.fields [("if", test), ("then", consequent), ("else", alternative)])
  | .chain test consequent next => do
    let test ← Attempt.inside .branchIf (test.toExpression withPatterns)
    let consequent ← Attempt.inside .branchThen consequent.formulaTerm
    let alternative ← Attempt.inside .branchElse (branch withPatterns next)
    return Term.apply "$cond"
      (Term.fields [("if", test), ("then", consequent), ("else", alternative)])

def rename (pairs : List (String × String)) : List Stage :=
  [.addFields (Fields.ofList (pairs.map fun pair => (pair.2, Term.column pair.1))),
    .project (Fields.ofList (pairs.map fun pair => (pair.1, Term.int 0)))]

/-- How a function gathers the values of a column. -/
def accumulator (function column : String) : Attempt Term :=
  match function with
  | "sum" => .ok (Term.apply "$sum" (Term.column column))
  | "avg" => .ok (Term.apply "$avg" (Term.column column))
  | "count" => .ok (Term.apply "$sum" (Term.int 1))
  | "count distinct" => .ok (Term.apply "$addToSet" (Term.column column))
  | "min" => .ok (Term.apply "$min" (Term.column column))
  | "max" => .ok (Term.apply "$max" (Term.column column))
  | "first" => .ok (Term.apply "$first" (Term.column column))
  | "last" => .ok (Term.apply "$last" (Term.column column))
  | _ => Attempt.fail (.unknownAggregation function)

/-- One aggregated column: how its values are gathered, and what is shown of them when the group is
kept as a row and when the rows are. -/
structure Aggregated where
  name : String
  gathered : Term
  projected : Term
  merged : Term

def aggregated (function column newColumn : String) : Attempt Aggregated := do
  let gathered ← accumulator function column
  if function == "count distinct" then
    let size := Term.apply "$size" (Term.column newColumn)
    return ⟨newColumn, gathered, size, size⟩
  else return ⟨newColumn, gathered, Term.int 1, Term.column newColumn⟩

def aggregatedColumns (function : String) : List (String × String) → Attempt (List Aggregated)
  | [] => .ok []
  | (column, newColumn) :: rest => do
    let first ← aggregated function column newColumn
    let others ← aggregatedColumns function rest
    return first :: others

def aggregatedAll : List Aggregation → Attempt (List Aggregated)
  | [] => .ok []
  | aggregation :: rest => do
    let columns := names aggregation.columns
    let newColumns := names aggregation.newColumns
    if columns.length != newColumns.length then
      Attempt.fail (.columnCount columns.length newColumns.length)
    else
      let first ← aggregatedColumns aggregation.function (columns.zip newColumns)
      let others ← aggregatedAll rest
      return first ++ others

/-- The columns of a group as columns of a row. -/
def groupColumns (on : ColumnList) : List (String × Term) :=
  ("_id", Term.int 0) :: (names on).map fun column => (column, Term.column ("_id." ++ column))

/-- One row for every group, or its results in all of its rows. -/
def aggregate (on : ColumnList) (aggregations : List Aggregation) (keepRows : Bool) :
    Attempt (List Stage) := do
  let all ← aggregatedAll aggregations
  let gathered := ("_id", groupId on) :: all.map fun column => (column.name, column.gathered)
  if keepRows then
    return .group (Fields.ofList (gathered ++ [(temporary.rows, pushedRows)])) ::
      ungroup (Fields.ofList (all.map fun column => (column.name, column.merged)))
  else
    return [.group (Fields.ofList gathered),
      .project (Fields.ofList (groupColumns on ++
        all.map fun column => (column.name, column.projected)))]

/-- The rows whose column is the extreme one of their group. -/
def extremum (column : String) (groups : ColumnList) (operator : String) : List Stage :=
  gather groups [(temporary.target, Term.apply operator (Term.column column))] ::
    ungroup [(temporary.target, Term.column temporary.target)] ++
    [.matching [("$expr", Term.call "$eq" [Term.column column, Term.column temporary.target])],
      .project [(temporary.target, Term.int 0)]]

/-- Columns with a separator between them, unless it is empty. -/
def concatenated (separator : String) : List String → List Term
  | [] => []
  | [column] => [Term.column column]
  | column :: rest =>
    if separator == "" then Term.column column :: concatenated separator rest
    else Term.column column :: Term.literal (.text separator) :: concatenated separator rest

def uniqueGroups (on : ColumnList) : List Stage :=
  [.group [("_id", groupId on)], .project (Fields.ofList (groupColumns on))]

def toDate (backend : Backend) (column format : String) : Attempt (List Stage) := do
  let text := [("dateString", Term.column column)]
  if format == "" then return setColumn column (Term.apply "$dateFromString" (Term.fields text))
  else
    backend.require .dateFormat "parsing dates with a format"
    return setColumn column
      (Term.apply "$dateFromString" (Term.fields (text ++ [("format", Term.text format)])))

/-- The number of characters before the first one kept.  A negative index counts from the end. -/
def substringStart (length : Term) (first : Int) : Term :=
  if 0 < first then Term.int (first - 1)
  else Term.call "$max" [Term.int 0, Term.call "$add" [length, Term.int first]]

/-- The number of characters up to the last one kept. -/
def substringEnd (length : Term) (last : Int) : Term :=
  if 0 < last then Term.int last else Term.call "$add" [length, Term.int (last + 1)]

/-- The number of characters kept, known beforehand when neither index counts from the end. -/
def substringCount (length : Term) (first last : Int) : Term :=
  if 0 < first && 0 < last then Term.int (max (last - (first - 1)) 0)
  else
    Term.call "$max" [Term.int 0,
      Term.call "$subtract" [substringEnd length last, substringStart length first]]

def substring (column : String) (first last : Int) (newColumn : String) :
    Attempt (List Stage) :=
  if first == 0 || last == 0 then Attempt.fail .zeroIndex
  else
    let length := Term.apply "$strLenCP" (Term.column column)
    let name := if newColumn == "" then column ++ "_SUBSTR" else newColumn
    .ok (setColumn name (Term.call "$substrCP"
      [Term.column column, substringStart length first, substringCount length first last]))

/-- A column divided by its total over the group; a total of zero gives null. -/
def percentage (column : String) (group : ColumnList) (newColumn : String) : List Stage :=
  let name := if newColumn == "" then column ++ "_PCT" else newColumn
  gather group [(temporary.total, Term.apply "$sum" (Term.column column))] ::
    ungroup [(name, Term.cond
      (Term.call "$eq" [Term.column temporary.total, Term.int 0]) Term.null
      (Term.call "$divide"
        [Term.column (temporary.rows ++ "." ++ column), Term.column temporary.total]))]

/-- The field that collects a column to be summed. -/
def collectedName (column : String) : String := "_vqb_" ++ column

/-- The sum of a collected column up to the row. -/
def runningSum (column : String) : Term :=
  Term.apply "$sum" (Term.call "$slice" [Term.column (collectedName column),
    Term.call "$add" [Term.column temporary.index, Term.int 1]])

def cumulated (pair : String × String) : String × Term :=
  (if pair.2 == "" then pair.1 ++ "_CUMSUM" else pair.2, runningSum pair.1)

def cumSum (pairs : List (String × String)) (reference : String) (groups : ColumnList) :
    Attempt (List Stage) :=
  match pairs with
  | [] => Attempt.fail .nothingToSum
  | _ =>
    .ok [.sort [(reference, 1)],
      gather groups (pairs.map fun pair =>
        (collectedName pair.1, Term.apply "$push" (Term.column pair.1))),
      .unwind (Term.fields [("path", Term.column temporary.rows),
        ("includeArrayIndex", Term.text temporary.index)]),
      .replaceRoot (Term.call "$mergeObjects"
        [Term.column temporary.rows, .document (Fields.ofList (pairs.map cumulated))])]

def convertType? (dataType : String) : Option String :=
  match dataType with
  | "boolean" => some "bool"
  | "date" => some "date"
  | "float" => some "double"
  | "integer" => some "int"
  | "text" => some "string"
  | _ => none

def convert (backend : Backend) (columns : ColumnList) (dataType : String) :
    Attempt (List Stage) := do
  backend.require .convert "$convert"
  match convertType? dataType with
  | none => Attempt.fail (.unknownDataType dataType)
  | some target =>
    return [.addFields (forColumns columns fun column =>
      Term.apply "$convert" (Term.fields [("input", Term.column column), ("to", Term.text target)]))]

/-- A stage written by hand, its values constants. -/
def customStage (fields : List (String × Value)) : Stage :=
  .custom (fields.map fun field => (field.1, .constant field.2))

def customStages : (index : Nat) → List Value → Attempt (List Stage)
  | _, [] => .ok []
  | index, .map fields :: rest => do
    let others ← customStages (index + 1) rest
    return customStage fields :: others
  | index, _ :: _ => Attempt.fail (.customStage index)

def custom : Value → Attempt (List Stage)
  | .map fields => .ok [customStage fields]
  | .list items => customStages 0 items
  | _ => Attempt.fail .customQuery

def operationStages (backend : Backend) : Operation → Attempt (List Stage)
  | .filter condition => do return [.matching (← condition.toMatch)]
  | .formula newColumn expression => do return setColumn newColumn (← expression.formulaTerm)
  | .top groups rankOn order limit => do
    let limit ← Attempt.inside .limit (Casting.integer limit)
    return top groups rankOn order limit
  | .fillna columns value =>
    .ok [.addFields (forColumns columns fun column =>
      Term.call "$ifNull" [Term.column column, Term.literal value])]
  | .replace column pairs => .ok (replace column (pairs.getD []))
  | .dateExtract column parts newColumns => dateExtract column (names parts) (names newColumns)
  | .ifThenElse newColumn held => do
    return setColumn newColumn (← branch (backend.supports .regexMatch) held)
  | .select columns => .ok [.project (forColumns columns fun _ => Term.int 1)]
  | .delete columns => .ok [.project (forColumns columns fun _ => Term.int 0)]
  | .rename pairs => .ok (rename (pairs.getD []))
  | .sort keys =>
    .ok [.sort ((keys.getD []).map fun key => (key.column, direction key.order))]
  | .aggregate on aggregations keepRows => aggregate on (aggregations.getD []) keepRows
  | .argmax column groups => .ok (extremum column groups "$max")
  | .argmin column groups => .ok (extremum column groups "$min")
  | .lowercase column => .ok (setColumn column (Term.apply "$toLower" (Term.column column)))
  | .uppercase column => .ok (setColumn column (Term.apply "$toUpper" (Term.column column)))
  | .concatenate columns separator newColumn =>
    .ok (setColumn newColumn (Term.call "$concat" (concatenated separator (names columns))))
  | .text newColumn content =>
    .ok (setColumn newColumn (Term.apply "$literal" (.constant content)))
  | .duplicate column newColumn => .ok (setColumn newColumn (Term.column column))
  | .uniqueGroups on => .ok (uniqueGroups on)
  | .toDate column format => toDate backend column format
  | .fromDate column format =>
    .ok (setColumn column (Term.apply "$dateToString"
      (Term.fields [("date", Term.column column), ("format", Term.text format)])))
  | .substring column first last newColumn => substring column first last newColumn
  | .trim columns => do
    backend.require .trim "$trim"
    return [.addFields (forColumns columns fun column =>
      Term.apply "$trim" (Term.apply "input" (Term.column column)))]
  | .percentage column group newColumn => .ok (percentage column group newColumn)
  | .cumSum pairs reference groups => cumSum (pairs.getD []) reference groups
  | .convert columns dataType => convert backend columns dataType
  | .compareText newColumn first second =>
    .ok (setColumn newColumn (Term.call "$eq" [Term.column first, Term.column second]))
  | .custom query => custom query

end Staging

end StepQuery
