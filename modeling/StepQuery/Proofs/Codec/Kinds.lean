import StepQuery.Proofs.Codec.Operation
import StepQuery.Proofs.Codec.Parameters

/-!
The kinds of operations as lists of parameters.  Filters and conditional columns have rules of their own;
every other kind is read and written parameter by parameter, so that its table of parameters says all
about its documents.
-/

namespace StepQuery.Operation

open Record (Parameter Content Updates Reads namesOf folded writeAll?)

/-- The kinds whose documents are not read and written parameter by parameter. -/
def IsSpecial : Operation → Prop
  | .filter _ | .ifThenElse _ _ => True
  | _ => False

/-- The parameters of an operation in the order in which they are written. -/
def parameters : Operation → List Parameter
  | .filter _ | .ifThenElse _ _ => []
  | .formula newColumn expression =>
    [⟨"new_column", .text newColumn, false⟩, ⟨"formula", .value expression, false⟩]
  | .top groups rankOn order limit =>
    [⟨"groups", .texts groups, true⟩, ⟨"rank_on", .text rankOn, false⟩, ⟨"sort", .text order, false⟩,
      ⟨"limit", .value limit, false⟩]
  | .fillna columns value => [⟨"columns", .texts columns, false⟩, ⟨"value", .value value, false⟩]
  | .replace column pairs =>
    [⟨"search_column", .text column, false⟩, ⟨"to_replace", .valuePairs pairs, false⟩]
  | .dateExtract column parts newColumns =>
    [⟨"column", .text column, false⟩, ⟨"date_info", .texts parts, false⟩,
      ⟨"new_columns", .texts newColumns, true⟩]
  | .select columns => [⟨"columns", .texts columns, false⟩]
  | .delete columns => [⟨"columns", .texts columns, false⟩]
  | .rename pairs => [⟨"to_rename", .textPairs pairs, false⟩]
  | .sort keys => [⟨"columns", .sortKeys keys, false⟩]
  | .aggregate on aggregations keepRows =>
    [⟨"on", .texts on, false⟩, ⟨"aggregations", .aggregations aggregations, false⟩,
      ⟨"keep_original_granularity", .flag keepRows, true⟩]
  | .argmax column groups => [⟨"column", .text column, false⟩, ⟨"groups", .texts groups, true⟩]
  | .argmin column groups => [⟨"column", .text column, false⟩, ⟨"groups", .texts groups, true⟩]
  | .lowercase column => [⟨"column", .text column, false⟩]
  | .uppercase column => [⟨"column", .text column, false⟩]
  | .concatenate columns separator newColumn =>
    [⟨"columns", .texts columns, false⟩, ⟨"separator", .text separator, false⟩,
      ⟨"new_column_name", .text newColumn, false⟩]
  | .text newColumn content => [⟨"new_column", .text newColumn, false⟩, ⟨"text", .value content, false⟩]
  | .duplicate column newColumn =>
    [⟨"column", .text column, false⟩, ⟨"new_column_name", .text newColumn, false⟩]
  | .uniqueGroups on => [⟨"on", .texts on, false⟩]
  | .toDate column format => [⟨"column", .text column, false⟩, ⟨"format", .text format, true⟩]
  | .fromDate column format => [⟨"column", .text column, false⟩, ⟨"format", .text format, false⟩]
  | .substring column first last newColumn =>
    [⟨"column", .text column, false⟩, ⟨"start_index", .whole first, false⟩,
      ⟨"end_index", .whole last, false⟩, ⟨"new_column_name", .text newColumn, true⟩]
  | .trim columns => [⟨"columns", .texts columns, false⟩]
  | .percentage column group newColumn =>
    [⟨"column", .text column, false⟩, ⟨"group", .texts group, true⟩,
      ⟨"new_column_name", .text newColumn, true⟩]
  | .cumSum pairs reference groups =>
    [⟨"to_cumsum", .textPairs pairs, false⟩, ⟨"reference_column", .text reference, false⟩,
      ⟨"groupby", .texts groups, true⟩]
  | .convert columns dataType => [⟨"columns", .texts columns, false⟩, ⟨"data_type", .text dataType, false⟩]
  | .compareText newColumn first second =>
    [⟨"new_column_name", .text newColumn, false⟩, ⟨"str1", .text first, false⟩,
      ⟨"str2", .text second, false⟩]
  | .custom query => [⟨"query", .value query, false⟩]

/-- No two parameters have the same name, and none is called `name`. -/
theorem apart (operation : Operation) : (("name" :: namesOf parameters operation).map folded).Nodup := by
  cases operation <;> (simp only [namesOf, parameters, List.map_cons, List.map_nil]; decide)

/-- Every field of an operation takes its member in by changing its own parameter. -/
theorem updates_fields (operation : Operation) :
    ∀ field ∈ operation.fields, Updates parameters id operation field := by
  cases operation <;>
    simp only [fields, List.forall_mem_cons, List.not_mem_nil, false_implies, implies_true, and_true]
  all_goals and_intros
  -- The parameter is the first, second, third or fourth.
  all_goals
    first
    | exact ⟨[], _, _, rfl, rfl, fun _ => ⟨_, rfl, rfl⟩⟩
    | exact ⟨[_], _, _, rfl, rfl, fun _ => ⟨_, rfl, rfl⟩⟩
    | exact ⟨[_, _], _, _, rfl, rfl, fun _ => ⟨_, rfl, rfl⟩⟩
    | exact ⟨[_, _, _], _, _, rfl, rfl, fun _ => ⟨_, rfl, rfl⟩⟩

theorem cleared_of_mem_blanks : ∀ operation ∈ blanks, ∀ parameter ∈ operation.parameters,
    parameter.content.cleared = parameter.content := by
  simp [blanks, parameters, Content.cleared]

theorem write?_optionalTexts (name : String) (columns : ColumnList) :
    Parameter.write? ⟨name, .texts columns, true⟩ = some (optionalTexts name columns) := by
  rcases columns with _ | _ | _ <;> rfl

theorem write?_optionalText (name value : String) :
    Parameter.write? ⟨name, .text value, true⟩ = some (optionalText name value) := by
  change (if (value == "") = true then some [] else some [(name, Json.string value)]) = _
  unfold optionalText
  split <;> rfl

theorem write?_value (name : String) (value : Value) :
    Parameter.write? ⟨name, .value value, false⟩ = value.toJson?.map fun json => [(name, json)] := rfl

theorem toMembers?_eq_writeAll? {operation : Operation} (plain : ¬ operation.IsSpecial) :
    operation.toMembers? = writeAll? operation.parameters := by
  cases operation with
  | filter | ifThenElse => exact absurd trivial plain
  | formula _ value | fillna _ value | text _ value | custom value | top _ _ _ value =>
    simp only [toMembers?, parameters, writeAll?, write?_value, write?_optionalTexts]
    cases value.toJson? <;> rfl
  | replace column pairs =>
    cases pairs with
    | none => rfl
    | some pairs =>
      simp only [toMembers?, parameters, writeAll?, Parameter.write?, Content.write?]
      cases pairItems? pairs <;> rfl
  | dateExtract | argmax | argmin | toDate | substring | percentage | cumSum =>
    simp only [toMembers?, parameters, writeAll?, write?_optionalTexts, write?_optionalText]
    simp [Parameter.write?, Content.write?]
  | aggregate _ _ keepRows => cases keepRows <;> rfl
  | _ => rfl

/-! ### Reading -/

/-- A field leaves the kind of the operation as it is. -/
theorem name_of_field (operation : Operation) : ∀ field ∈ operation.fields, ∀ json next misfit,
    field.2 json = .ok (next, misfit) → next.name = operation.name := by
  cases operation <;>
    simp only [fields, List.forall_mem_cons, List.not_mem_nil, false_implies, implies_true, and_true]
  all_goals and_intros
  all_goals
    rintro json next misfit ⟨⟩
    rfl

theorem isSpecial_iff {operation : Operation} :
    operation.IsSpecial ↔ namesOf parameters operation = [] := by
  cases operation <;> simp [IsSpecial, namesOf, parameters]

section Read

variable {members : List (String × Json)} {blank operation : Operation}
  (read : Record.read fields members blank none = .ok operation)

include read

theorem name_of_read : operation.name = blank.name :=
  Record.read_keeps (·.name = blank.name)
    (fun record same field declared _ _ next misfit taken =>
      (name_of_field record field declared _ next misfit taken).trans same) rfl read

/-- Reading into a blank operation takes in what the document says, parameter by parameter. -/
theorem reads_of_read (start : blank ∈ blanks)
    (unlike : (members.map fun member => folded member.1).Nodup) :
    Reads members operation.parameters ∧ namesOf parameters operation = namesOf parameters blank := by
  have takes := Record.read_eq_ok_iff.mp read
  rw [← List.map_id members] at takes
  exact takes.reads id updates_fields (fun record => (List.nodup_cons.mp (apart record)).2)
    (cleared_of_mem_blanks blank start) unlike fun _ => rfl

end Read

theorem name_of_ofMembers {members : List (String × Json)} {blank operation : Operation}
    (read : ofMembers members blank = .ok operation) : operation.name = blank.name := by
  cases blank with
  | filter | ifThenElse =>
    obtain ⟨_, _, read⟩ := Attempt.bind_eq_ok.mp read
    obtain ⟨_, _, same⟩ := Attempt.bind_eq_ok.mp read
    cases same
    rfl
  | _ => exact name_of_read read

end StepQuery.Operation
