import StepQuery.Value

/-!
Pipelines: ordered lists of steps, each of which consumes the rows of the one before.  A step either
names rows (`domain`), brings in other pipelines (`append`, `join`), or transforms the rows it is
given; only the second kind nests.  Lists that a document may leave out are optional, because a
written pipeline tells an absent list from an empty one.
-/

namespace StepQuery

/-- One comparison of a column with a value.  The operator is kept as written: which ones are known
is for the use of the condition to say. -/
structure Comparison where
  column : String
  operator : String
  value : Value
deriving Inhabited

/-- A boolean condition on a row. -/
inductive Condition where
  | absent
  | simple (comparison : Comparison)
  | all (children : List Condition)
  | any (children : List Condition)
deriving Inhabited

/-- A conditional value: the chain of its else-ifs ends in a plain value. -/
inductive Branch where
  | last (test : Condition) (consequent alternative : Value)
  | chain (test : Condition) (consequent : Value) (next : Branch)

abbrev ColumnList := Option (List String)

abbrev ColumnPairs := Option (List (String × String))

structure SortKey where
  column : String
  order : String
deriving Inhabited

/-- One function applied to columns, each giving a new column. -/
structure Aggregation where
  columns : ColumnList
  newColumns : ColumnList
  function : String
deriving Inhabited

/-- The steps that transform rows without bringing in others. -/
inductive Operation where
  | filter (condition : Condition)
  | formula (newColumn : String) (formula : Value)
  | top (groups : ColumnList) (rankOn sort : String) (limit : Value)
  | fillna (columns : ColumnList) (value : Value)
  | replace (column : String) (pairs : Option (List (Value × Value)))
  | dateExtract (column : String) (parts newColumns : ColumnList)
  | ifThenElse (newColumn : String) (branch : Branch)
  | select (columns : ColumnList)
  | delete (columns : ColumnList)
  | rename (pairs : ColumnPairs)
  | sort (keys : Option (List SortKey))
  | aggregate (on : ColumnList) (aggregations : Option (List Aggregation)) (keepRows : Bool)
  | argmax (column : String) (groups : ColumnList)
  | argmin (column : String) (groups : ColumnList)
  | lowercase (column : String)
  | uppercase (column : String)
  | concatenate (columns : ColumnList) (separator newColumn : String)
  | text (newColumn : String) (text : Value)
  | duplicate (column newColumn : String)
  | uniqueGroups (on : ColumnList)
  | toDate (column format : String)
  | fromDate (column format : String)
  | substring (column : String) (first last : Int) (newColumn : String)
  | trim (columns : ColumnList)
  | percentage (column : String) (group : ColumnList) (newColumn : String)
  | cumSum (pairs : ColumnPairs) (reference : String) (groups : ColumnList)
  | convert (columns : ColumnList) (dataType : String)
  | compareText (newColumn first second : String)
  | custom (query : Value)

mutual

inductive Step where
  | domain (name : String)
  | append (sources : Option (List Reference))
  | join (right : Reference) (type : String) (on : ColumnPairs)
  | transform (operation : Operation)

/-- Where the rows of an append or join come from: a named pipeline or one written in place. -/
inductive Reference where
  | named (name : String)
  | inline (steps : List Step)

end

abbrev Pipeline := List Step

/-- The named pipelines that references may point to. -/
abbrev Scope := Fields Pipeline

namespace Operation

def name : Operation → String
  | .filter .. => "filter"
  | .formula .. => "formula"
  | .top .. => "top"
  | .fillna .. => "fillna"
  | .replace .. => "replace"
  | .dateExtract .. => "dateextract"
  | .ifThenElse .. => "ifthenelse"
  | .select .. => "select"
  | .delete .. => "delete"
  | .rename .. => "rename"
  | .sort .. => "sort"
  | .aggregate .. => "aggregate"
  | .argmax .. => "argmax"
  | .argmin .. => "argmin"
  | .lowercase .. => "lowercase"
  | .uppercase .. => "uppercase"
  | .concatenate .. => "concatenate"
  | .text .. => "text"
  | .duplicate .. => "duplicate"
  | .uniqueGroups .. => "uniquegroups"
  | .toDate .. => "todate"
  | .fromDate .. => "fromdate"
  | .substring .. => "substring"
  | .trim .. => "trim"
  | .percentage .. => "percentage"
  | .cumSum .. => "cumsum"
  | .convert .. => "convert"
  | .compareText .. => "comparetext"
  | .custom .. => "custom"

/-- One operation of every kind, all parameters left out. -/
def blanks : List Operation :=
  [.filter .absent, .formula "" .null, .top none "" "" .null, .fillna none .null, .replace "" none,
    .dateExtract "" none none, .ifThenElse "" (.last .absent .null .null), .select none,
    .delete none, .rename none, .sort none, .aggregate none none false, .argmax "" none,
    .argmin "" none, .lowercase "", .uppercase "", .concatenate none "" "", .text "" .null,
    .duplicate "" "", .uniqueGroups none, .toDate "" "", .fromDate "" "", .substring "" 0 0 "",
    .trim none, .percentage "" none "", .cumSum none "" none, .convert none "",
    .compareText "" "" "", .custom .null]

end Operation

namespace Step

def name : Step → String
  | .domain _ => "domain"
  | .append _ => "append"
  | .join .. => "join"
  | .transform operation => operation.name

/-- One step of every kind, all parameters left out. -/
def blanks : List Step :=
  [.domain "", .append none, .join (.named "") "" none] ++ Operation.blanks.map .transform

def blank? (name : String) : Option Step := blanks.find? fun step => step.name == name

/-- The names of all kinds of step, in ascending order. -/
def names : List String := (blanks.map name).mergeSort fun a b => decide (a ≤ b)

end Step

namespace Condition

mutual

/-- The comparisons of a condition, from left to right. -/
def comparisons : Condition → List Comparison
  | .absent => []
  | .simple comparison => [comparison]
  | .all children => comparisonsOf children
  | .any children => comparisonsOf children

def comparisonsOf : List Condition → List Comparison
  | [] => []
  | child :: rest => comparisons child ++ comparisonsOf rest

end

end Condition

namespace Comparison

/-- Whether the operator compares with a list of values. -/
def isMultiValue (comparison : Comparison) : Bool :=
  comparison.operator == "in" || comparison.operator == "nin"

/-- Whether the operator looks at the column alone. -/
def isNullCheck (comparison : Comparison) : Bool :=
  comparison.operator == "isnull" || comparison.operator == "notnull"

end Comparison

end StepQuery
