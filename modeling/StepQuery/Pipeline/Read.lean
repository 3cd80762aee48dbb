import StepQuery.Pipeline.ReadCondition

/-!
Reading steps and pipelines from documents.  The members of a step other than its name are taken in
ascending order of their keys.
-/

namespace StepQuery

namespace Operation

abbrev OperationField := String × (Json → Attempt (Operation × Option Cause))

/-- A field that takes its member in and puts it into the operation. -/
def field {α : Type} (name : String) (store : Record.Store α) (held : α)
    (put : α → Operation) : OperationField :=
  (name, fun json => let (found, misfit) := store json held; .ok (put found, misfit))

/-- The declared fields of an operation, with what each holds so far.  Filters and conditional
columns are read by rules of their own. -/
def fields : Operation → List OperationField
  | .filter _ => []
  | .ifThenElse _ _ => []
  | .formula newColumn expression =>
    [field "new_column" Record.text newColumn fun found => .formula found expression,
      field "formula" Record.value expression fun found => .formula newColumn found]
  | .top groups rankOn order limit =>
    [field "groups" Record.texts groups fun found => .top found rankOn order limit,
      field "rank_on" Record.text rankOn fun found => .top groups found order limit,
      field "sort" Record.text order fun found => .top groups rankOn found limit,
      field "limit" Record.value limit fun found => .top groups rankOn order found]
  | .fillna columns value =>
    [field "columns" Record.texts columns fun found => .fillna found value,
      field "value" Record.value value fun found => .fillna columns found]
  | .replace column pairs =>
    [field "search_column" Record.text column fun found => .replace found pairs,
      field "to_replace" (Record.list (.null, .null) (Record.pair .null Record.value)) pairs
        fun found => .replace column found]
  | .dateExtract column parts newColumns =>
    [field "column" Record.text column fun found => .dateExtract found parts newColumns,
      field "date_info" Record.texts parts fun found => .dateExtract column found newColumns,
      field "new_columns" Record.texts newColumns fun found => .dateExtract column parts found]
  | .select columns => [field "columns" Record.texts columns .select]
  | .delete columns => [field "columns" Record.texts columns .delete]
  | .rename pairs => [field "to_rename" Record.textPairs pairs .rename]
  | .sort keys => [field "columns" (Record.list ⟨"", ""⟩ Record.sortKey) keys .sort]
  | .aggregate on aggregations keepRows =>
    [field "on" Record.texts on fun found => .aggregate found aggregations keepRows,
      field "aggregations" (Record.list ⟨none, none, ""⟩ Record.aggregation) aggregations
        fun found => .aggregate on found keepRows,
      field "keep_original_granularity" Record.flag keepRows
        fun found => .aggregate on aggregations found]
  | .argmax column groups =>
    [field "column" Record.text column fun found => .argmax found groups,
      field "groups" Record.texts groups fun found => .argmax column found]
  | .argmin column groups =>
    [field "column" Record.text column fun found => .argmin found groups,
      field "groups" Record.texts groups fun found => .argmin column found]
  | .lowercase column => [field "column" Record.text column .lowercase]
  | .uppercase column => [field "column" Record.text column .uppercase]
  | .concatenate columns separator newColumn =>
    [field "columns" Record.texts columns fun found => .concatenate found separator newColumn,
      field "separator" Record.text separator fun found => .concatenate columns found newColumn,
      field "new_column_name" Record.text newColumn
        fun found => .concatenate columns separator found]
  | .text newColumn content =>
    [field "new_column" Record.text newColumn fun found => .text found content,
      field "text" Record.value content fun found => .text newColumn found]
  | .duplicate column newColumn =>
    [field "column" Record.text column fun found => .duplicate found newColumn,
      field "new_column_name" Record.text newColumn fun found => .duplicate column found]
  | .uniqueGroups on => [field "on" Record.texts on .uniqueGroups]
  | .toDate column format =>
    [field "column" Record.text column fun found => .toDate found format,
      field "format" Record.text format fun found => .toDate column found]
  | .fromDate column format =>
    [field "column" Record.text column fun found => .fromDate found format,
      field "format" Record.text format fun found => .fromDate column found]
  | .substring column first last newColumn =>
    [field "column" Record.text column fun found => .substring found first last newColumn,
      field "start_index" Record.whole first fun found => .substring column found last newColumn,
      field "end_index" Record.whole last fun found => .substring column first found newColumn,
      field "new_column_name" Record.text newColumn
        fun found => .substring column first last found]
  | .trim columns => [field "columns" Record.texts columns .trim]
  | .percentage column group newColumn =>
    [field "column" Record.text column fun found => .percentage found group newColumn,
      field "group" Record.texts group fun found => .percentage column found newColumn,
      field "new_column_name" Record.text newColumn fun found => .percentage column group found]
  | .cumSum pairs reference groups =>
    [field "to_cumsum" Record.textPairs pairs fun found => .cumSum found reference groups,
      field "reference_column" Record.text reference fun found => .cumSum pairs found groups,
      field "groupby" Record.texts groups fun found => .cumSum pairs reference found]
  | .convert columns dataType =>
    [field "columns" Record.texts columns fun found => .convert found dataType,
      field "data_type" Record.text dataType fun found => .convert columns found]
  | .compareText newColumn first second =>
    [field "new_column_name" Record.text newColumn fun found => .compareText found first second,
      field "str1" Record.text first fun found => .compareText newColumn found second,
      field "str2" Record.text second fun found => .compareText newColumn first found]
  | .custom query => [field "query" Record.value query .custom]

def filterFields (_ : Json) : List (String × (Json → Attempt (Json × Option Cause))) :=
  [("condition", fun json => .ok (json, none))]

/-- Read the members of an operation, given with all parameters left out. -/
def ofMembers (members : List (String × Json)) : Operation → Attempt Operation
  | .filter _ => do
    let condition ← Attempt.inside (.seenAs .invalidStep)
      (Record.read filterFields members .null none)
    return .filter (← Condition.ofJson condition)
  | .ifThenElse _ _ => do
    let parts ← Branch.readParts Branch.stepFields (Branch.membersOf members)
    return .ifThenElse parts.newColumn (← Branch.ofParts parts)
  | blank => Record.read fields members blank none

end Operation

namespace Step

/-- A member of a step object, with its readings as a reference and as a list of references. -/
structure Member where
  json : Json
  reference : Attempt Reference
  sources : List (Attempt Reference)

def sources : List (Attempt Reference) → Attempt (List Reference)
  | [] => .ok []
  | source :: rest => do
    let first ← source
    let others ← sources rest
    return first :: others

def domainFields (held : String) : List (String × (Member → Attempt (String × Option Cause))) :=
  [("domain", fun member => .ok (Record.text member.json held))]

def appendFields (held : Option (List Reference)) :
    List (String × (Member → Attempt (Option (List Reference) × Option Cause))) :=
  [("pipelines", fun member =>
    match member.json with
    | .null => .ok (none, none)
    | .array _ => do return (some (← sources member.sources), none)
    | _ => .ok (Record.misfit held))]

structure JoinParts where
  right : Reference
  type : String
  on : ColumnPairs

def joinFields (held : JoinParts) : List (String × (Member → Attempt (JoinParts × Option Cause))) :=
  [("right_pipeline", fun member => do
      return ({ held with right := ← member.reference }, none)),
    ("type", fun member =>
      let (found, misfit) := Record.text member.json held.type
      .ok ({ held with type := found }, misfit)),
    ("on", fun member =>
      let (found, misfit) := Record.textPairs member.json held.on
      .ok ({ held with on := found }, misfit))]

/-- Read the members of a step, given with all parameters left out. -/
def ofBody (members : List (String × Member)) : Step → Attempt Step
  | .domain name => (Record.read domainFields members name none).map .domain
  | .append held => (Record.read appendFields members held none).map .append
  | .join right type on => do
    let parts ← Record.read joinFields members ⟨right, type, on⟩ none
    return .join parts.right parts.type parts.on
  | .transform blank =>
    (Operation.ofMembers (members.map fun member => (member.1, member.2.json)) blank).map .transform

/-- Write a member at its place in ascending order; a member of the same key is replaced. -/
def insertMember (key : String) (member : Member) :
    List (String × Member) → List (String × Member)
  | [] => [(key, member)]
  | (other, held) :: rest =>
    if key = other then (key, member) :: rest
    else if key < other then (key, member) :: (other, held) :: rest
    else (other, held) :: insertMember key member rest

def sortMembers (members : List (String × Member)) : List (String × Member) :=
  members.foldl (fun sorted member => insertMember member.1 member.2 sorted) []

/-- The name of a step's kind; `null` counts as empty. -/
def nameOf (members : List (String × Member)) : Attempt String :=
  match members.find? fun member => member.1 == "name" with
  | none => Attempt.fail .missingStepName
  | some (_, member) =>
    match member.json with
    | .null => .ok ""
    | .string name => .ok name
    | _ => Attempt.fail .stepNameNotText

/-- The step that a list of members writes: its kind by the member `name`, then the others. -/
def ofMembers (members : List (String × Member)) : Attempt Step := do
  let sorted := sortMembers members
  let name ← nameOf sorted
  match blank? name with
  | none => Attempt.fail (.unsupportedStep name)
  | some blank =>
    Attempt.inside (.seenAs .invalidStep) (Attempt.inside (.body name)
      (ofBody (sorted.filter fun member => member.1 != "name") blank))

mutual

def ofJson : Json → Attempt Step
  | .null => Attempt.fail .missingStepName
  | .object members => ofMembers (membersOf members)
  | _ => Attempt.inside (.seenAs .invalidStep) (Attempt.fail .wrongType)

def membersOf : List (String × Json) → List (String × Member)
  | [] => []
  | (key, json) :: rest => (key, ⟨json, referenceOf json, sourcesOf json⟩) :: membersOf rest

/-- A reference is a name or a list of steps. -/
def referenceOf : Json → Attempt Reference
  | .string name => .ok (.named name)
  | .array items => (stepsOf 0 items).map .inline
  | other => Attempt.fail (.notReference (Json.compact .escaped other))

def sourcesOf : Json → List (Attempt Reference)
  | .array items => referencesOf items
  | _ => []

def referencesOf : List Json → List (Attempt Reference)
  | [] => []
  | item :: rest => referenceOf item :: referencesOf rest

/-- The steps of a list, the first at the given position. -/
def stepsOf : (index : Nat) → List Json → Attempt (List Step)
  | _, [] => .ok []
  | index, item :: rest => do
    let first ← Attempt.inside (.step index) (ofJson item)
    let others ← stepsOf (index + 1) rest
    return first :: others

end

end Step

namespace Pipeline

/-- The pipeline that a document writes.  `null` writes the empty one. -/
def ofJson : Json → Attempt Pipeline
  | .null => .ok []
  | .array items => Step.stepsOf 0 items
  | _ => Attempt.inside (.seenAs .invalidStep)
    (Attempt.inside .stepList (Attempt.fail .wrongType))

end Pipeline

namespace Scope

/-- The pipelines of the members, up to the first that refuses. -/
def ofMembers : List (String × Json) → Scope → Attempt Scope
  | [], scope => .ok scope
  | (name, json) :: rest, scope => do
    let pipeline ← Pipeline.ofJson json
    ofMembers rest (Fields.set name pipeline scope)

def ofJson : Json → Attempt Scope
  | .null => .ok []
  | .object members => ofMembers members []
  | _ => Attempt.fail .wrongType

end Scope

end StepQuery
