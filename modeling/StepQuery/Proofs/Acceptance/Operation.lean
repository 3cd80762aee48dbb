import StepQuery.Proofs.Acceptance.Condition
import StepQuery.Proofs.Query.Requests
import StepQuery.Proofs.Query.Stages

/-!
Which operations give accepted stages.  A stage that sets, keeps, removes or sorts columns must name
some; of the operations with a list of columns or pairs only some look whether it is empty.
-/

namespace StepQuery

namespace Stage

mutual

/-- Whether a stage is accepted, and with it the stages of a lookup.  Stages written by hand are not
looked into. -/
def isAccepted : Stage → Bool
  | .matching condition => (Term.document condition).data.conforms .demand
  | .addFields fields | .project fields =>
    !fields.isEmpty && fields.all fun field => field.2.isAccepted
  | .group fields => fields.all fun field => field.2.isAccepted
  | .sort keys => !keys.isEmpty
  | .unwind argument => argument.isAccepted
  | .replaceRoot root => root.isAccepted
  | .lookup _ bindings stages _ =>
    ((bindings.getD []).all fun field => field.2.isAccepted) && areAccepted stages
  | .custom _ => true

def areAccepted : List Stage → Bool
  | [] => true
  | stage :: rest => isAccepted stage && areAccepted rest

end

end Stage

namespace Operation

open Staging (names)

/-- Whether no list that an operation makes a stage of is empty, no combination in a filter is, and no
value brings in a switch without branches. -/
def isFilled : Operation → Bool
  | .filter condition =>
    condition.isFilled && condition.comparisons.all Comparison.isAcceptedInMatch
  | .formula _ expression => expression.isAccepted
  | .fillna columns value => !(names columns).isEmpty && value.isAccepted
  | .replace _ pairs => (pairs.getD []).all fun pair => pair.1.isAccepted && pair.2.isAccepted
  | .ifThenElse _ held => held.isAccepted
  | .dateExtract _ parts _ => !(names parts).isEmpty
  | .select columns | .delete columns | .trim columns | .convert columns _ =>
    !(names columns).isEmpty
  | .rename pairs => !(pairs.getD []).isEmpty
  | .sort keys => !(keys.getD []).isEmpty
  | _ => true

end Operation

namespace Stage

@[simp]
theorem areAccepted_nil : areAccepted [] = true := rfl

@[simp]
theorem areAccepted_cons (stage : Stage) (rest : List Stage) :
    areAccepted (stage :: rest) = (stage.isAccepted && areAccepted rest) := rfl

@[simp]
theorem areAccepted_append (stages others : List Stage) :
    areAccepted (stages ++ others) = (areAccepted stages && areAccepted others) := by
  induction stages with
  | nil => simp
  | cons stage rest inductionHypothesis => simp [inductionHypothesis, Bool.and_assoc]

section Kinds

variable (fields : List (String × Term))

@[simp]
theorem isAccepted_matching :
    (matching fields).isAccepted = (Term.document fields).data.conforms .demand := rfl

theorem isAccepted_addFields : (addFields fields).isAccepted =
    (!fields.isEmpty && fields.all fun field => field.2.isAccepted) := rfl

theorem isAccepted_project : (project fields).isAccepted =
    (!fields.isEmpty && fields.all fun field => field.2.isAccepted) := rfl

theorem isAccepted_group :
    (group fields).isAccepted = fields.all fun field => field.2.isAccepted := rfl

@[simp]
theorem isAccepted_unwind (argument : Term) :
    (unwind argument).isAccepted = argument.isAccepted := rfl

@[simp]
theorem isAccepted_replaceRoot (root : Term) : (replaceRoot root).isAccepted = root.isAccepted := rfl

theorem isAccepted_lookup (source target : String) (bindings : Option (List (String × Term)))
    (stages : List Stage) :
    (lookup source bindings stages target).isAccepted =
      (((bindings.getD []).all fun field => field.2.isAccepted) && areAccepted stages) := rfl

end Kinds

theorem areAccepted_eq_all (stages : List Stage) : areAccepted stages = stages.all isAccepted := by
  induction stages with
  | nil => rw [areAccepted_nil, List.all_nil]
  | cons stage rest inductionHypothesis =>
    rw [areAccepted_cons, inductionHypothesis, List.all_cons]

end Stage

namespace Staging

theorem areAccepted_setColumn (column : String) (term : Term) :
    Stage.areAccepted (setColumn column term) = term.isAccepted := by
  simp [setColumn, Stage.isAccepted_addFields]

theorem isAccepted_addFields_forColumns (columns : ColumnList) (make : String → Term) :
    (Stage.addFields (forColumns columns make)).isAccepted =
      (!(names columns).isEmpty && (names columns).all fun column => (make column).isAccepted) := by
  rw [Stage.isAccepted_addFields, forColumns, Fields.all_ofList_map, Fields.isEmpty_ofList, List.isEmpty_map]

section Accepted

variable {entries : List (String × Term)} (accepted : ∀ entry ∈ entries, entry.2.isAccepted)

include accepted

theorem isAccepted_addFields_ofList :
    (Stage.addFields (Fields.ofList entries)).isAccepted = !entries.isEmpty := by
  rw [Stage.isAccepted_addFields, Fields.all_ofList_of_all accepted, Fields.isEmpty_ofList, Bool.and_true]

theorem isAccepted_project_ofList :
    (Stage.project (Fields.ofList entries)).isAccepted = !entries.isEmpty := by
  rw [Stage.isAccepted_project, Fields.all_ofList_of_all accepted, Fields.isEmpty_ofList, Bool.and_true]

theorem isAccepted_group_ofList : (Stage.group (Fields.ofList entries)).isAccepted := by
  rw [Stage.isAccepted_group, Fields.all_ofList_of_all accepted]

end Accepted

theorem isAccepted_project_flags (columns : ColumnList) (flag : Int) :
    (Stage.project (forColumns columns fun _ => Term.int flag)).isAccepted =
      !(names columns).isEmpty := by
  rw [forColumns, isAccepted_project_ofList (by simp +contextual), List.isEmpty_map]

theorem isAccepted_groupId (columns : ColumnList) : (groupId columns).isAccepted := by
  unfold groupId
  split
  · rfl
  · rw [Term.isAccepted_document, forColumns]
    apply Fields.all_ofList_of_all
    intro entry member
    obtain ⟨column, _, rfl⟩ := List.mem_map.mp member
    simp

theorem isAccepted_gather (columns : ColumnList) {fields : List (String × Term)}
    (accepted : ∀ field ∈ fields, field.2.isAccepted) : (gather columns fields).isAccepted := by
  apply isAccepted_group_ofList
  simp only [List.cons_append, List.nil_append, List.forall_mem_cons]
  exact ⟨isAccepted_groupId columns, rfl, accepted⟩

theorem isAccepted_dateFields {column : String} {parts newColumns : List String}
    {fields : List (String × Term)} (written : dateFields column parts newColumns = .ok fields) :
    fields.isEmpty = parts.isEmpty ∧ ∀ field ∈ fields, field.2.isAccepted := by
  induction parts generalizing newColumns fields with
  | nil =>
    rw [dateFields] at written
    cases written
    exact ⟨rfl, nofun⟩
  | cons part rest inductionHypothesis =>
    rw [dateFields] at written
    obtain ⟨term, extracted, written⟩ := Attempt.bind_eq_ok.mp written
    obtain ⟨others, later, written⟩ := Attempt.bind_eq_ok.mp written
    cases written
    refine ⟨rfl, List.forall_mem_cons.mpr ⟨?_, (inductionHypothesis later).2⟩⟩
    unfold DatePart.extract at extracted
    split at extracted <;> cases extracted
    exact DatePart.isAccepted_ofDate _ column

/-- The terms of an aggregated column are accepted, also as fields of a document. -/
structure Aggregated.Accepted (column : Aggregated) : Prop where
  gathered : column.gathered.isAccepted
  projected : column.projected.isAccepted
  merged : column.merged.isAccepted
  isField : Value.hasBranches column.name column.merged.data

theorem isAccepted_accumulator {function column : String} {gathered : Term}
    (accumulated : accumulator function column = .ok gathered) : gathered.isAccepted := by
  unfold accumulator at accumulated
  split at accumulated <;> cases accumulated <;> simp [Value.hasBranches_of_ne]

theorem accepted_of_meets {request : Request} {made : Aggregated} (meets : request.Meets made) :
    made.Accepted := by
  obtain ⟨name, gathered, projected, merged⟩ := made
  obtain ⟨_, accumulated, rfl, rfl⟩ := meets
  have accepted := isAccepted_accumulator accumulated
  by_cases counted : request.function = "count distinct"
  · rw [if_pos counted, if_pos counted]
    exact ⟨accepted, by simp [Value.hasBranches_of_ne], by simp [Value.hasBranches_of_ne],
      by simp [Value.hasBranches_entry]⟩
  · rw [if_neg counted, if_neg counted]
    exact ⟨accepted, by simp, by simp, by simp⟩

theorem accepted_aggregatedAll {aggregations : List Aggregation} {found : List Aggregated}
    (written : aggregatedAll aggregations = .ok found) : ∀ column ∈ found, column.Accepted := by
  intro column member
  obtain ⟨request, _, meets⟩ := exists_request (meets_aggregatedAll written) member
  exact accepted_of_meets meets

theorem accepted_groupColumns (on : ColumnList) : ∀ field ∈ groupColumns on, field.2.isAccepted := by
  rw [groupColumns, List.forall_mem_cons]
  refine ⟨rfl, ?_⟩
  intro field member
  obtain ⟨column, _, rfl⟩ := List.mem_map.mp member
  rfl

theorem areAccepted_ungroup {fields : List (String × Term)}
    (accepted : ∀ field ∈ fields, Value.hasBranches field.1 field.2.data ∧ field.2.isAccepted) :
    Stage.areAccepted (ungroup fields) := by
  have document : (Term.document fields).isAccepted := by
    rw [Term.isAccepted_document, List.all_eq_true]
    intro field member
    simp [accepted field member]
  simp [ungroup, Stage.isAccepted, document]

theorem areAccepted_aggregate {on : ColumnList} {aggregations : List Aggregation} {keepRows : Bool}
    {stages : List Stage} (returned : aggregate on aggregations keepRows = .ok stages) :
    Stage.areAccepted stages := by
  obtain ⟨columns, written, returned⟩ := Attempt.bind_eq_ok.mp returned
  have accepted := accepted_aggregatedAll written
  have gathered : ∀ field ∈ ("_id", groupId on) :: columns.map fun column =>
      (column.name, column.gathered), field.2.isAccepted := by
    simp only [List.forall_mem_cons, List.forall_mem_map]
    exact ⟨isAccepted_groupId on, fun column member => (accepted column member).gathered⟩
  dsimp only at returned
  split at returned <;> cases returned
  · rw [Stage.areAccepted_cons, Bool.and_eq_true]
    constructor
    · refine isAccepted_group_ofList (List.forall_mem_append.mpr ⟨gathered, ?_⟩)
      exact List.forall_mem_singleton.mpr rfl
    · apply areAccepted_ungroup
      intro field member
      obtain ⟨column, within, rfl⟩ := List.mem_map.mp (Fields.mem_ofList member)
      exact ⟨(accepted column within).isField, (accepted column within).merged⟩
  · have projected : ∀ field ∈ groupColumns on ++ columns.map fun column =>
        (column.name, column.projected), field.2.isAccepted := by
      refine List.forall_mem_append.mpr ⟨accepted_groupColumns on, ?_⟩
      simp only [List.forall_mem_map]
      exact fun column member => (accepted column member).projected
    rw [Stage.areAccepted_cons, Stage.areAccepted_cons, isAccepted_group_ofList gathered,
      isAccepted_project_ofList projected]
    rfl

/-- A match by an equation of columns is accepted. -/
theorem isAccepted_equal (first second : String) :
    (Stage.matching [("$expr",
      Term.call "$eq" [Term.column first, Term.column second])]).isAccepted := by
  rw [Stage.isAccepted_matching, Term.data_entry, Term.data_call, Value.conforms_demand _ _ (by decide)]
  rfl

theorem areAccepted_extremum (column : String) (groups : ColumnList) (operator : String)
    (other : operator ≠ "$switch") : Stage.areAccepted (extremum column groups operator) := by
  have gathered : (gather groups
      [(temporary.target, Term.apply operator (Term.column column))]).isAccepted := by
    apply isAccepted_gather
    simp [Value.hasBranches_of_ne other]
  have restored : Stage.areAccepted
      (ungroup [(temporary.target, Term.column temporary.target)]) := by
    apply areAccepted_ungroup
    simp
  rw [extremum, Stage.areAccepted_append, Stage.areAccepted_cons, gathered, restored,
    Stage.areAccepted_cons, isAccepted_equal]
  rfl

theorem areAccepted_percentage (column : String) (group : ColumnList) (newColumn : String) :
    Stage.areAccepted (percentage column group newColumn) := by
  unfold percentage
  dsimp only
  rw [Stage.areAccepted_cons, isAccepted_gather, areAccepted_ungroup]
  · rfl
  · refine List.forall_mem_singleton.mpr ⟨Value.hasBranches_entry (by decide) _ _, ?_⟩
    simp
  · refine List.forall_mem_singleton.mpr ?_
    simp [Value.hasBranches_of_ne]

theorem areAccepted_cumSum {pairs : List (String × String)} {reference : String}
    {groups : ColumnList} {stages : List Stage}
    (returned : cumSum pairs reference groups = .ok stages) : Stage.areAccepted stages := by
  obtain ⟨_, rfl⟩ := cumSum_eq_ok.mp returned
  have gathered : (gather groups (pairs.map fun pair =>
      (collectedName pair.1, Term.apply "$push" (Term.column pair.1)))).isAccepted := by
    apply isAccepted_gather
    refine List.forall_mem_map.mpr fun pair _ => ?_
    simp [Value.hasBranches_of_ne]
  have summed : (Term.document (Fields.ofList (pairs.map cumulated))).isAccepted := by
    rw [Term.isAccepted_document]
    refine Fields.all_ofList_of_all (List.forall_mem_map.mpr fun pair _ => ?_)
    simp [cumulated, runningSum, Value.hasBranches_of_ne, Value.hasBranches_entry]
  simp [gathered, summed, Stage.isAccepted, Term.isAccepted_fields, Value.hasBranches_of_ne]

theorem areAccepted_substring {column newColumn : String} {first last : Int} {stages : List Stage}
    (returned : substring column first last newColumn = .ok stages) : Stage.areAccepted stages := by
  obtain ⟨_, rfl⟩ := substring_eq_ok.mp returned
  have start {length : Term} (accepted : length.isAccepted) :
      (substringStart length first).isAccepted := by
    unfold substringStart
    split <;> simp [accepted]
  have finish {length : Term} (accepted : length.isAccepted) :
      (substringEnd length last).isAccepted := by
    unfold substringEnd
    split <;> simp [accepted]
  have count {length : Term} (accepted : length.isAccepted) :
      (substringCount length first last).isAccepted := by
    unfold substringCount
    split <;> simp [start accepted, finish accepted]
  have length : (Term.apply "$strLenCP" (Term.column column)).isAccepted := by
    simp [Value.hasBranches_of_ne]
  rw [areAccepted_setColumn]
  simp [start length, count length]

theorem isAccepted_concatenated (separator : String) (columns : List String) :
    ∀ term ∈ concatenated separator columns, term.isAccepted := by
  fun_induction concatenated separator columns with
  | case1 => exact nofun
  | case2 column => exact List.forall_mem_singleton.mpr rfl
  | case3 column rest _ _ inductionHypothesis =>
    exact List.forall_mem_cons.mpr ⟨rfl, inductionHypothesis⟩
  | case4 column rest _ _ inductionHypothesis =>
    refine List.forall_mem_cons.mpr ⟨rfl, List.forall_mem_cons.mpr ⟨?_, inductionHypothesis⟩⟩
    exact (Term.isAccepted_literal _).trans rfl

theorem areAccepted_customStages {index : Nat} {items : List Value} {stages : List Stage}
    (returned : customStages index items = .ok stages) : Stage.areAccepted stages := by
  fun_induction customStages index items generalizing stages with
  | case1 =>
    cases returned
    exact Stage.areAccepted_nil
  | case2 index fields rest inductionHypothesis =>
    obtain ⟨others, later, returned⟩ := Attempt.bind_eq_ok.mp returned
    cases returned
    rw [Stage.areAccepted_cons, inductionHypothesis later, customStage, Stage.isAccepted]
    rfl
  | case3 => cases returned

theorem areAccepted_custom {query : Value} {stages : List Stage}
    (returned : custom query = .ok stages) : Stage.areAccepted stages := by
  unfold custom at returned
  split at returned
  · cases returned
    simp [customStage, Stage.isAccepted]
  · exact areAccepted_customStages returned
  · cases returned

theorem areAccepted_operationStages {backend : Backend} {operation : Operation}
    {stages : List Stage} (returned : operationStages backend operation = .ok stages) :
    Stage.areAccepted stages = operation.isFilled := by
  cases operation with
  | filter condition =>
    obtain ⟨document, matched, returned⟩ := Attempt.bind_eq_ok.mp returned
    cases returned
    rw [Stage.areAccepted_cons, Stage.areAccepted_nil, Bool.and_true, Stage.isAccepted_matching,
      Condition.conforms_toMatch condition document matched, Operation.isFilled]
  | formula newColumn expression =>
    obtain ⟨term, read, returned⟩ := Attempt.bind_eq_ok.mp returned
    cases returned
    rw [areAccepted_setColumn, Value.isAccepted_formulaTerm read, Operation.isFilled]
  | ifThenElse newColumn held =>
    obtain ⟨term, written, returned⟩ := Attempt.bind_eq_ok.mp returned
    cases returned
    rw [areAccepted_setColumn, isAccepted_branch written, Operation.isFilled]
  | fillna columns value =>
    cases returned
    rw [Stage.areAccepted_cons, Stage.areAccepted_nil, isAccepted_addFields_forColumns, Operation.isFilled]
    cases names columns with
    | nil => rfl
    | cons column rest =>
      simp only [Term.isAccepted_call, List.all_cons, List.all_nil, Term.isAccepted_column,
        Term.isAccepted_literal]
      rw [Bool.eq_iff_iff]
      simp [Value.isAccepted]
      exact fun h _ _ => h
  | replace column pairs =>
    cases returned
    unfold replace
    rw [Operation.isFilled]
    cases pairs.getD [] with
    | nil => rfl
    | cons pair rest =>
      simp [areAccepted_setColumn, List.all_map, Function.comp_def, Value.isAccepted]
  | dateExtract column parts newColumns =>
    obtain ⟨_, fields, written, rfl⟩ := dateExtract_eq_ok.mp returned
    obtain ⟨sameLength, accepted⟩ := isAccepted_dateFields written
    rw [Stage.areAccepted_cons, Stage.areAccepted_nil, Stage.isAccepted_addFields, Fields.isEmpty_ofList,
      Fields.all_ofList_of_all accepted, sameLength, Operation.isFilled]
    simp
  | select columns | delete columns =>
    cases returned
    simp [isAccepted_project_flags, Operation.isFilled]
  | trim columns =>
    obtain ⟨_, _, returned⟩ := Attempt.bind_eq_ok.mp returned
    cases returned
    simp [isAccepted_addFields_forColumns, Operation.isFilled, Value.hasBranches_of_ne]
  | convert columns dataType =>
    obtain ⟨_, _, _, rfl⟩ := convert_eq_ok.mp returned
    simp [isAccepted_addFields_forColumns, Operation.isFilled, Value.hasBranches_of_ne,
      Term.isAccepted_fields]
  | rename pairs =>
    cases returned
    rw [rename, Operation.isFilled]
    have added : ∀ field ∈ (pairs.getD []).map fun pair => (pair.2, Term.column pair.1),
        field.2.isAccepted := List.forall_mem_map.mpr fun _ _ => rfl
    have removed : ∀ field ∈ (pairs.getD []).map fun pair => (pair.1, Term.int 0),
        field.2.isAccepted := List.forall_mem_map.mpr fun _ _ => rfl
    simp [isAccepted_addFields_ofList added, isAccepted_project_ofList removed]
  | sort keys =>
    cases returned
    simp [Stage.isAccepted, Operation.isFilled]
  | top groups rankOn order limit =>
    obtain ⟨number, _, returned⟩ := Attempt.bind_eq_ok.mp returned
    cases returned
    simp [top, Stage.isAccepted, isAccepted_gather, Operation.isFilled, Value.conforms]
  | aggregate on aggregations keepRows => exact areAccepted_aggregate returned
  | argmax column groups | argmin column groups =>
    cases returned
    exact areAccepted_extremum column groups _ (by decide)
  | uniqueGroups on =>
    cases returned
    rw [uniqueGroups, Stage.areAccepted_cons, Stage.areAccepted_cons,
      isAccepted_project_ofList (accepted_groupColumns on), Stage.isAccepted]
    simp [isAccepted_groupId, groupColumns, Operation.isFilled]
  | percentage column group newColumn =>
    cases returned
    exact areAccepted_percentage column group newColumn
  | cumSum pairs reference groups => exact areAccepted_cumSum returned
  | custom query =>
    rw [operationStages] at returned
    exact areAccepted_custom returned
  | toDate column format =>
    obtain ⟨_, rfl⟩ := toDate_eq_ok.mp returned
    split <;>
      simp [areAccepted_setColumn, Term.isAccepted_fields, Operation.isFilled,
        Value.hasBranches_of_ne]
  | substring column first last newColumn => exact areAccepted_substring returned
  | concatenate columns separator newColumn =>
    cases returned
    have accepted := List.all_eq_true.mpr (isAccepted_concatenated separator (names columns))
    rw [areAccepted_setColumn, Term.isAccepted_call, accepted]
    rfl
  | _ =>
    cases returned
    simp [areAccepted_setColumn, Operation.isFilled, Value.hasBranches_of_ne, Term.isAccepted_fields]

end Staging

end StepQuery
