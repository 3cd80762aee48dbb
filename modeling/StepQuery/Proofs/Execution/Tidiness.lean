import StepQuery.Proofs.Execution.Appending
import StepQuery.Proofs.Query.Requests
import StepQuery.Proofs.Query.Stages

/-!
No step leaves a temporary field behind.  Every operation is given clean rows and gives clean rows, and
so do the steps that bring in rows of other queries, because these give clean rows; hence the rows of
a query are clean, and so are those that a lookup finds.
-/

namespace StepQuery

namespace Operation

open Staging (names)

/-- The columns that an operation is given by name, old and new.  Those that conditions and formulas
read do not matter. -/
def columns : Operation → List String
  | .filter _ | .custom _ => []
  | .formula newColumn _ | .ifThenElse newColumn _ | .text newColumn _ => [newColumn]
  | .top groups rankOn _ _ => rankOn :: names groups
  | .fillna columns _ | .select columns | .delete columns | .trim columns | .convert columns _
  | .uniqueGroups columns => names columns
  | .replace column _ | .lowercase column | .uppercase column | .toDate column _
  | .fromDate column _ => [column]
  | .dateExtract column _ newColumns => column :: names newColumns
  | .rename pairs => (pairs.getD []).flatMap fun pair => [pair.1, pair.2]
  | .sort keys => (keys.getD []).map (·.column)
  | .aggregate on aggregations _ =>
    names on ++ (aggregations.getD []).flatMap fun aggregation =>
      names aggregation.columns ++ names aggregation.newColumns
  | .argmax column groups | .argmin column groups => column :: names groups
  | .concatenate columns _ newColumn => newColumn :: names columns
  | .duplicate column newColumn | .substring column _ _ newColumn => [column, newColumn]
  | .percentage column group newColumn => column :: newColumn :: names group
  | .cumSum pairs reference groups =>
    reference :: names groups ++ (pairs.getD []).flatMap fun pair => [pair.1, pair.2]
  | .compareText newColumn first second => [newColumn, first, second]

/-- An operation that is not written by hand and is given no temporary name. -/
structure Tidy (operation : Operation) : Prop where
  planned : ∀ query, operation ≠ .custom query
  clean : ∀ name ∈ operation.columns, isTemporary name = false

end Operation

namespace Staging

open Fields (Named)

variable {engine : Engine}

theorem keeps_setColumn {column : String} (clean : isTemporary column = false) (term : Term) :
    engine.Keeps (setColumn column term) :=
  Engine.keeps_addFields (List.forall_mem_singleton.mpr clean)

/-- Fields for clean columns are fields of clean names. -/
theorem clean_forColumns {columns : ColumnList}
    (clean : ∀ name ∈ names columns, isTemporary name = false) (make : String → Term) : Fields.IsClean (forColumns columns make) := by
  intro field member
  obtain ⟨name, within, rfl⟩ := List.mem_map.mp (Fields.mem_ofList member)
  exact clean name within

theorem clean_ofList {entries : List (String × Term)} (clean : Fields.IsClean entries) :
    Fields.IsClean (Fields.ofList entries) :=
  fun field member => clean field (Fields.mem_ofList member)

/-- The rows of a group, clean as they were given. -/
theorem holdsRows_gather {context : Context} {rows : List (Fields Value)} (columns : ColumnList)
    {fields : List (String × Term)} (others : ∀ field ∈ fields, field.1 ≠ temporary.rows)
    (clean : ∀ row ∈ rows, row.IsClean) :
    ∀ row ∈ engine.run [gather columns fields] context rows, row.HoldsRows temporary.rows :=
  Engine.holdsRows_group (by decide)
    (Fields.get?_ofList_append [("_id", groupId columns)] temporary.rows pushedRows others) clean

theorem keeps_replace {column : String} (clean : isTemporary column = false)
    (pairs : List (Value × Value)) : engine.Keeps (replace column pairs) := by
  unfold replace
  split
  · exact Engine.keeps_nil
  · exact keeps_setColumn clean _

theorem keeps_rename {pairs : List (String × String)}
    (clean : ∀ pair ∈ pairs, isTemporary pair.1 = false ∧ isTemporary pair.2 = false) :
    engine.Keeps (rename pairs) := by
  have added : engine.Keeps
      [.addFields (Fields.ofList (pairs.map fun pair => (pair.2, Term.column pair.1)))] :=
    Engine.keeps_addFields (clean_ofList (List.forall_mem_map.mpr fun pair member =>
      (clean pair member).2))
  exact added.append (Engine.keeps_project (clean_ofList
    (List.forall_mem_map.mpr fun pair member => (clean pair member).1)))

theorem mem_of_extract {part column : String} {term : Term}
    (extracted : DatePart.extract part column = .ok term) : part ∈ DatePart.all.map DatePart.name := by
  unfold DatePart.extract at extracted
  split at extracted
  next known found =>
    have named : known.name = part := by simpa using List.find?_some found
    exact List.mem_map.mpr ⟨known, List.mem_of_find?_eq_some found, named⟩
  next => cases extracted

theorem clean_dateFields {column : String} (clean : isTemporary column = false)
    {parts newColumns : List String} (given : ∀ name ∈ newColumns, isTemporary name = false)
    {fields : List (String × Term)} (written : dateFields column parts newColumns = .ok fields) :
    Fields.IsClean fields := by
  induction parts generalizing newColumns fields with
  | nil =>
    cases written
    exact nofun
  | cons part rest inductionHypothesis =>
    rw [dateFields] at written
    obtain ⟨term, extracted, written⟩ := Attempt.bind_eq_ok.mp written
    obtain ⟨others, later, written⟩ := Attempt.bind_eq_ok.mp written
    cases written
    refine List.forall_mem_cons.mpr ⟨?_, inductionHypothesis
      (fun name member => given name (List.mem_of_mem_tail member)) later⟩
    cases newColumns with
    | cons name _ => exact given name List.mem_cons_self
    | nil => exact isTemporary_part clean (mem_of_extract extracted)

/-- The first rows of a group that are kept in an array. -/
theorem read_topRows {context : Context} {row : Fields Value} {held : List (Fields Value)}
    (found : row.get? temporary.rows = some (.list (held.map .map))) (limit : Int64) :
    engine.read context row (Term.call "$slice"
      [Term.column temporary.rows, .constant (.int limit)]) =
        some (.list ((Operator.slice held limit.toInt).map .map)) := by
  rw [Engine.read_operator_column (by decide) (by decide) (by decide) (by decide) row _ rfl, found]
  exact congrArg (fun items => some (Value.list items)) (Operator.slice_map _ _ _)

/-- The first rows of a group are some of its rows. -/
theorem keeps_top (groups : ColumnList) (rankOn order : String) (limit : Int64) :
    engine.Keeps (top groups rankOn order limit) := by
  intro context rows collections clean
  have field : isFieldName temporary.topRows := by decide
  rw [top, Engine.run_cons, Engine.run_cons, Engine.run_cons, Engine.run_cons]
  apply Engine.clean_replaceRoot_column field
  apply Engine.holdsRow_unwind_column field
  intro row member
  rw [Engine.run_project] at member
  split at member
  · cases member
  obtain ⟨given, within, rfl⟩ := List.mem_map.mp member
  obtain ⟨held, found, heldClean⟩ := holdsRows_gather groups (by simp)
    (Engine.keeps_sort _ context rows collections clean) given within
  exact ⟨Operator.slice held limit.toInt,
    (Engine.get?_project_computed field rfl given).trans (read_topRows found limit),
    fun document member => heldClean document (Operator.mem_of_mem_slice member)⟩

/-- The result of a group is put into its rows, compared with, and removed. -/
theorem keeps_extremum (column : String) (groups : ColumnList) (operator : String) :
    engine.Keeps (extremum column groups operator) := by
  intro context rows collections clean
  have field : isFieldName temporary.target := by decide
  have others : temporary.target ≠ temporary.rows := by decide
  have gathered : ∀ row ∈ engine.run [gather groups
      [(temporary.target, Term.apply operator (Term.column column))]] context rows,
      row.HoldsRows temporary.rows :=
    holdsRows_gather groups (List.forall_mem_singleton.mpr others) clean
  have named : Named (fun name => name = temporary.target ∨ isTemporary name = false)
      [(temporary.target, Term.column temporary.target)] :=
    List.forall_mem_singleton.mpr (.inl rfl)
  have unmarked : ∀ field ∈ [(temporary.target, Term.column temporary.target)],
      isMarked field.1 = false := List.forall_mem_singleton.mpr (by decide)
  rw [extremum, List.cons_append, Engine.run_cons, Engine.run_append, Engine.run_cons,
    Engine.run_matching, Engine.run_project]
  intro row member
  split at member
  · cases member
  · obtain ⟨given, within, rfl⟩ := List.mem_map.mp member
    change (engine.exclude [(temporary.target, Term.int 0)] given).IsClean
    refine Engine.named_exclude_column field ?_ _
    exact Engine.named_ungroup (fun _ => Or.inr) gathered
      (fun _ _ _ read => Engine.named_document unmarked named read) given
      (List.mem_of_mem_filter within)

theorem keeps_percentage (unobtrusive : engine.Unobtrusive) {column newColumn : String}
    (group : ColumnList) (old : isTemporary column = false) (new : isTemporary newColumn = false) :
    engine.Keeps (percentage column group newColumn) := by
  intro context rows collections clean
  have others : temporary.total ≠ temporary.rows := by decide
  unfold percentage
  dsimp only
  rw [Engine.run_cons]
  apply Engine.named_ungroup (fun _ given => given)
  · exact holdsRows_gather group (List.forall_mem_singleton.mpr others) clean
  · intro _ row made read
    refine Engine.clean_document unobtrusive (List.forall_mem_singleton.mpr ?_)
      (List.forall_mem_singleton.mpr (Engine.computes_share unobtrusive _ _)) read
    dsimp only
    split
    · exact isTemporary_append old rfl (by decide)
    · exact new

theorem clean_cumulated {pair : String × String}
    (clean : isTemporary pair.1 = false ∧ isTemporary pair.2 = false) :
    isTemporary (cumulated pair).1 = false := by
  unfold cumulated
  dsimp only
  split
  · exact isTemporary_append clean.1 rfl (by decide)
  · exact clean.2

theorem collectedName_ne {name : String} (other : ¬ "_vqb_".toList <+: name.toList)
    (column : String) : collectedName column ≠ name := by
  rintro rfl
  apply other
  rw [collectedName, String.toList_append]
  exact List.prefix_append _ _

theorem collectedName_ne_rows (column : String) : collectedName column ≠ temporary.rows :=
  collectedName_ne (by decide) column

theorem keeps_cumSum (unobtrusive : engine.Unobtrusive) {pairs : List (String × String)}
    {reference : String} {groups : ColumnList} {stages : List Stage}
    (names : ∀ pair ∈ pairs, isTemporary pair.1 = false ∧ isTemporary pair.2 = false)
    (returned : cumSum pairs reference groups = .ok stages) : engine.Keeps stages := by
  obtain ⟨_, rfl⟩ := cumSum_eq_ok.mp returned
  intro context rows collections clean
  have gathered : ∀ row ∈ engine.run [gather groups (pairs.map fun pair =>
      (collectedName pair.1, Term.apply "$push" (Term.column pair.1)))] context
        (engine.run [.sort [(reference, 1)]] context rows), row.HoldsRows temporary.rows :=
    holdsRows_gather groups (List.forall_mem_map.mpr fun pair _ => collectedName_ne_rows pair.1)
      (Engine.keeps_sort _ context rows collections clean)
  have counted : Unwinding.ofValue? (Term.fields [("path", Term.column temporary.rows),
      ("includeArrayIndex", Term.text temporary.index)]).data =
        some ⟨[temporary.rows], some temporary.index, false⟩ := rfl
  have different : ∀ name ∈ some temporary.index, name ≠ temporary.rows := by decide
  rw [Engine.run_cons, Engine.run_cons]
  refine Engine.named_restored counted rfl different (fun _ given => given) gathered ?_
  intro _ row made read
  refine Engine.clean_document unobtrusive (clean_ofList ?_) ?_ read
  · exact List.forall_mem_map.mpr fun pair member => clean_cumulated (names pair member)
  · intro field member
    obtain ⟨pair, _, rfl⟩ := List.mem_map.mp (Fields.mem_ofList member)
    exact Engine.computes_runningSum unobtrusive pair.1

theorem isTemporary_identity : isTemporary "_id" = false := by decide

theorem clean_groupColumns {on : ColumnList} (clean : ∀ name ∈ names on, isTemporary name = false) :
    Fields.IsClean (groupColumns on) :=
  List.forall_mem_cons.mpr ⟨isTemporary_identity, List.forall_mem_map.mpr clean⟩

theorem keeps_uniqueGroups {on : ColumnList} (clean : ∀ name ∈ names on, isTemporary name = false) :
    engine.Keeps (uniqueGroups on) := by
  have grouped : engine.Keeps [.group [("_id", groupId on)]] :=
    Engine.keeps_group (List.forall_mem_singleton.mpr isTemporary_identity)
  exact grouped.append (Engine.keeps_project (clean_ofList (clean_groupColumns clean)))

/-- Groups that become rows, or results that are put into the rows of a group. -/
theorem keeps_aggregate {on : ColumnList} {aggregations : List Aggregation} {keepRows : Bool}
    {stages : List Stage} (clean : ∀ name ∈ names on, isTemporary name = false)
    (new : ∀ aggregation ∈ aggregations, ∀ name ∈ names aggregation.newColumns,
      isTemporary name = false)
    (returned : aggregate on aggregations keepRows = .ok stages) : engine.Keeps stages := by
  obtain ⟨columns, written, returned⟩ := Attempt.bind_eq_ok.mp returned
  have named : ∀ column ∈ columns, isTemporary column.name = false := by
    intro column member
    obtain ⟨aggregation, within, newName⟩ := mem_of_aggregatedAll written column member
    exact new aggregation within column.name newName
  dsimp only at returned
  split at returned <;> cases returned
  · intro context rows _ given
    rw [Engine.run_cons]
    have pushed := Fields.get?_ofList_append (("_id", groupId on) :: columns.map fun column =>
      (column.name, column.gathered)) temporary.rows pushedRows (List.forall_mem_nil _)
    refine Engine.named_ungroup (fun _ clean => clean)
      (Engine.holdsRows_group (by decide) pushed given) ?_
    intro some row made read
    obtain ⟨gathered, within⟩ := List.exists_mem_of_ne_nil _ some
    obtain ⟨valid, _⟩ := Engine.exists_of_mem_group within
    refine Engine.named_document ?_ (clean_ofList (List.forall_mem_map.mpr named)) read
    -- A group refuses names that would be operators in an object.
    intro field member
    obtain ⟨column, ofColumn, rfl⟩ := List.mem_map.mp (Fields.mem_ofList member)
    have gathers : column.name ∈ Fields.names (Fields.ofList ((("_id", groupId on) :: columns.map
        fun column => (column.name, column.gathered)) ++ [(temporary.rows, pushedRows)])) := by
      rw [Fields.mem_names_ofList]
      exact List.mem_map.mpr ⟨(column.name, column.gathered), List.mem_append_left _
        (List.mem_cons_of_mem _ (List.mem_map.mpr ⟨column, ofColumn, rfl⟩)), rfl⟩
    obtain ⟨written, isWritten, same⟩ := List.mem_map.mp gathers
    exact isMarked_of_isFieldName (same ▸ valid written isWritten)
  · have grouped : engine.Keeps [.group (Fields.ofList (("_id", groupId on) :: columns.map
        fun column => (column.name, column.gathered)))] :=
      Engine.keeps_group (clean_ofList (List.forall_mem_cons.mpr
        ⟨isTemporary_identity, List.forall_mem_map.mpr named⟩))
    exact grouped.append (Engine.keeps_project (clean_ofList (List.forall_mem_append.mpr
      ⟨clean_groupColumns clean, List.forall_mem_map.mpr named⟩)))

theorem keeps_operationStages (unobtrusive : engine.Unobtrusive) {backend : Backend}
    {operation : Operation} (tidy : operation.Tidy) {stages : List Stage}
    (returned : operationStages backend operation = .ok stages) : engine.Keeps stages := by
  have names := tidy.clean
  cases operation with
  | filter condition =>
    obtain ⟨document, _, returned⟩ := Attempt.bind_eq_ok.mp returned
    cases returned
    exact Engine.keeps_matching document
  | custom query => exact absurd rfl (tidy.planned query)
  | formula newColumn expression =>
    obtain ⟨term, _, returned⟩ := Attempt.bind_eq_ok.mp returned
    cases returned
    exact keeps_setColumn (names newColumn List.mem_cons_self) term
  | ifThenElse newColumn held =>
    obtain ⟨term, _, returned⟩ := Attempt.bind_eq_ok.mp returned
    cases returned
    exact keeps_setColumn (names newColumn List.mem_cons_self) term
  | top groups rankOn order limit =>
    obtain ⟨number, _, returned⟩ := Attempt.bind_eq_ok.mp returned
    cases returned
    exact keeps_top groups rankOn order number
  | fillna columns value =>
    cases returned
    exact Engine.keeps_addFields (clean_forColumns names _)
  | replace column pairs =>
    cases returned
    exact keeps_replace (names column List.mem_cons_self) _
  | dateExtract column parts newColumns =>
    obtain ⟨first, later⟩ := List.forall_mem_cons.mp names
    obtain ⟨_, fields, written, rfl⟩ := dateExtract_eq_ok.mp returned
    exact Engine.keeps_addFields (clean_ofList (clean_dateFields first later written))
  | select columns | delete columns =>
    cases returned
    exact Engine.keeps_project (clean_forColumns names _)
  | rename pairs =>
    cases returned
    refine keeps_rename fun pair member => ⟨names _ ?_, names _ ?_⟩ <;>
      exact List.mem_flatMap.mpr ⟨pair, member, by simp⟩
  | sort keys =>
    cases returned
    exact Engine.keeps_sort _
  | aggregate on aggregations keepRows =>
    obtain ⟨clean, new⟩ := List.forall_mem_append.mp names
    refine keeps_aggregate clean (fun aggregation member name within => new name ?_) returned
    exact List.mem_flatMap.mpr ⟨aggregation, member, List.mem_append_right _ within⟩
  | argmax column groups | argmin column groups =>
    cases returned
    exact keeps_extremum column groups _
  | uniqueGroups on =>
    cases returned
    exact keeps_uniqueGroups names
  | toDate column format =>
    obtain ⟨_, rfl⟩ := toDate_eq_ok.mp returned
    exact keeps_setColumn (names column List.mem_cons_self) _
  | substring column first last newColumn =>
    obtain ⟨_, rfl⟩ := substring_eq_ok.mp returned
    apply keeps_setColumn
    split
    · exact isTemporary_append (names column (by simp [Operation.columns])) rfl (by decide)
    · exact names newColumn (by simp [Operation.columns])
  | trim columns =>
    obtain ⟨_, _, returned⟩ := Attempt.bind_eq_ok.mp returned
    cases returned
    exact Engine.keeps_addFields (clean_forColumns names _)
  | convert columns dataType =>
    obtain ⟨_, _, _, rfl⟩ := convert_eq_ok.mp returned
    exact Engine.keeps_addFields (clean_forColumns names _)
  | percentage column group newColumn =>
    cases returned
    exact keeps_percentage unobtrusive group (names column (by simp [Operation.columns]))
      (names newColumn (by simp [Operation.columns]))
  | cumSum pairs reference groups =>
    refine keeps_cumSum unobtrusive (fun pair member => ⟨names _ ?_, names _ ?_⟩) returned <;>
      exact List.mem_append_right _ (List.mem_flatMap.mpr ⟨pair, member, by simp⟩)
  | lowercase column | uppercase column | fromDate column format =>
    cases returned
    exact keeps_setColumn (names column List.mem_cons_self) _
  | concatenate columns separator newColumn =>
    cases returned
    exact keeps_setColumn (names newColumn List.mem_cons_self) _
  | text newColumn content | compareText newColumn first second =>
    cases returned
    exact keeps_setColumn (names newColumn List.mem_cons_self) _
  | duplicate column newColumn =>
    cases returned
    exact keeps_setColumn (names newColumn (by simp [Operation.columns])) _

section Sources

theorem keeps_append {queries : List Query} (each : ∀ query ∈ queries, engine.Keeps query.stages) :
    engine.Keeps (append queries) := by
  intro context rows collections clean row member
  rw [run_append] at member
  split at member
  · cases member
  · rcases List.mem_append.mp member with mine | appended
    · exact clean row mine
    · obtain ⟨query, within, found⟩ := List.mem_flatMap.mp appended
      exact each query within context _ collections (collections query.domain) row found

/-- How the rows found by a join are taken out of their array: all kinds of joins but inner ones keep a
row for which nothing is found. -/
theorem exists_of_joinUnwind {type : String} {unwind : Stage} (found : joinUnwind type = .ok unwind) :
    ∃ argument, unwind = .unwind argument ∧
      Unwinding.ofValue? argument.data = some ⟨[joinField], none, type != "inner"⟩ := by
  unfold joinUnwind at found
  split at found <;> cases found
  · exact ⟨_, rfl, Unwinding.ofValue?_column (by decide)⟩
  all_goals exact ⟨_, rfl, rfl⟩

/-- The rows found are merged with the row at hand, which still has the field that holds them. -/
theorem keeps_join {type : String} {pairs : List (String × String)} {other : Query}
    {stages : List Stage} (kept : engine.Keeps other.stages)
    (returned : join type pairs other = .ok stages) : engine.Keeps stages := by
  obtain ⟨unwind, found, returned⟩ := Attempt.bind_eq_ok.mp returned
  cases returned
  obtain ⟨argument, rfl, read⟩ := exists_of_joinUnwind found
  intro context rows collections clean
  have field : isFieldName joinField := by decide
  rw [Engine.run_cons, Engine.run_cons, Engine.run_cons]
  let allowed (name : String) : Prop := name = joinField ∨ isTemporary name = false
  generalize lookedUp : engine.run [_] context rows = attached
  have holds : ∀ row ∈ attached, row.HoldsRows joinField ∧ Named allowed row := by
    intro row member
    rw [← lookedUp, Engine.run_lookup] at member
    obtain ⟨given, within, rfl⟩ := List.mem_map.mp member
    have named : Named allowed given := (clean given within).mono fun _ => .inr
    refine ⟨⟨_, Fields.get?_set_self _ _ _, ?_⟩, named.set (.inl rfl) _⟩
    exact (kept.append (Engine.keeps_matching _)) _ _ collections (collections other.domain)
  clear lookedUp
  generalize unwound : engine.run [_] context attached = separate
  have held : ∀ row ∈ separate, row.HoldsRow joinField := by
    rw [← unwound]
    exact Engine.holdsRow_unwind read rfl nofun fun row member => (holds row member).1
  have named : ∀ row ∈ separate, Named allowed row := by
    rw [← unwound]
    exact Engine.named_unwind read (by simp [allowed]) nofun fun row member => (holds row member).2
  have merged : ∀ row ∈ engine.run [.replaceRoot (Term.call "$mergeObjects"
      [Term.column joinField, Term.root])] context separate, Named allowed row := by
    apply Engine.named_replaceRoot_merged
    · intro row member document merges
      exact (Engine.clean_mergeable_column field (held row member) merges).mono fun _ => .inr
    · intro row member document merges
      rw [Engine.read_root] at merges
      cases merges
      exact named row member
  intro row member
  rw [Engine.run_project] at member
  split at member
  · cases member
  · obtain ⟨given, within, rfl⟩ := List.mem_map.mp member
    change (engine.exclude [(joinField, Term.int 0)] given).IsClean
    exact Engine.named_exclude_column field (merged given within) _

end Sources

end Staging

mutual

/-- The operations of a pipeline, those of the pipelines written in it included. -/
def Pipeline.operations : List Step → List Operation
  | [] => []
  | step :: rest => step.operations ++ Pipeline.operations rest

def Step.operations : Step → List Operation
  | .domain _ | .append none => []
  | .append (some sources) => Reference.operationsOf sources
  | .join right _ _ => right.operations
  | .transform operation => [operation]

def Reference.operationsOf : List Reference → List Operation
  | [] => []
  | first :: rest => first.operations ++ Reference.operationsOf rest

def Reference.operations : Reference → List Operation
  | .named _ => []
  | .inline steps => Pipeline.operations steps

end

namespace Staging

variable {engine : Engine}

/-- Where all operations are tidy, the stages of a step keep rows clean. -/
def StepKeeps (engine : Engine) (step : Step) (stages : List Stage) : Prop :=
  (∀ operation ∈ step.operations, operation.Tidy) → engine.Keeps stages

def QueryKeeps (engine : Engine) (steps : List Step) (found : Query) : Prop :=
  (∀ operation ∈ Pipeline.operations steps, operation.Tidy) → engine.Keeps found.stages

theorem keeps_steps {steps : List Step} {parts : List (List Stage)}
    (each : List.Forall₂ (StepKeeps engine) steps parts)
    (tidy : ∀ operation ∈ Pipeline.operations steps, operation.Tidy) :
    engine.Keeps parts.flatten := by
  induction each with
  | nil => exact Engine.keeps_nil
  | cons first _ inductionHypothesis =>
    rw [Pipeline.operations] at tidy
    obtain ⟨tidyFirst, tidyRest⟩ := List.forall_mem_append.mp tidy
    exact (first tidyFirst).append (inductionHypothesis tidyRest)

theorem keeps_source {reference : Reference} {found : Query}
    (source : FromSource (QueryKeeps engine) reference found)
    (tidy : ∀ operation ∈ reference.operations, operation.Tidy) : engine.Keeps found.stages := by
  cases reference with
  | named name =>
    cases source
    exact Engine.keeps_nil
  | inline steps =>
    rw [Reference.operations] at tidy
    exact source tidy

theorem keeps_sources {sources : List Reference} {queries : List Query}
    (each : List.Forall₂ (FromSource (QueryKeeps engine)) sources queries)
    (tidy : ∀ operation ∈ Reference.operationsOf sources, operation.Tidy) :
    ∀ query ∈ queries, engine.Keeps query.stages := by
  induction each with
  | nil => exact nofun
  | cons first _ inductionHypothesis =>
    rw [Reference.operationsOf] at tidy
    obtain ⟨tidyFirst, tidyRest⟩ := List.forall_mem_append.mp tidy
    exact List.forall_mem_cons.mpr ⟨keeps_source first tidyFirst, inductionHypothesis tidyRest⟩

theorem keeps_compositional (unobtrusive : engine.Unobtrusive) (target : Target) :
    Compositional target (QueryKeeps engine) (StepKeeps engine) where
  assembled name rest parts each regular tidy := by
    rw [Pipeline.operations, Step.operations, List.nil_append] at tidy
    have kept := keeps_steps each tidy
    cases target.simplifies
    · exact kept
    · intro context rows collections clean
      rw [if_pos rfl, Engine.run_simplify engine context rows regular]
      exact kept context rows collections clean
  appended sources queries each tidy := by
    apply keeps_append
    cases sources with
    | none =>
      cases each
      exact nofun
    | some sources =>
      rw [Step.operations] at tidy
      exact keeps_sources each tidy
  joined right type on other stages _ source returned tidy := by
    rw [Step.operations] at tidy
    exact keeps_join (keeps_source source tidy) returned
  transformed operation stages returned tidy := by
    rw [Step.operations] at tidy
    exact keeps_operationStages unobtrusive (tidy operation List.mem_cons_self) returned

end Staging

namespace Pipeline

theorem tidy_of_mem {pipeline : Pipeline} {step : Step} (member : step ∈ pipeline)
    (tidy : ∀ operation ∈ operations pipeline, operation.Tidy) :
    ∀ operation ∈ step.operations, operation.Tidy := by
  induction pipeline with
  | nil => cases member
  | cons first rest inductionHypothesis =>
    rw [operations] at tidy
    obtain ⟨tidyFirst, tidyRest⟩ := List.forall_mem_append.mp tidy
    rcases List.mem_cons.mp member with rfl | later
    · exact tidyFirst
    · exact inductionHypothesis later tidyRest

/-- Where neither the collections nor the names that operations are given are temporary, no row of a
query has a temporary field, and no row that the stages of a step make of rows without one. -/
theorem toQuery_rows_clean {pipeline : Pipeline} {backend : String} {simplifies : Bool}
    {query : Query} {engine : Engine} {context : Context}
    (returned : pipeline.toQuery backend simplifies = .ok query)
    (tidy : ∀ operation ∈ operations pipeline, operation.Tidy) (unobtrusive : engine.Unobtrusive)
    (clean : context.IsClean) :
    (∀ row ∈ engine.rows query context, row.IsClean) ∧
      ∀ step ∈ pipeline, ∀ target stages, Staging.stepStages target step = .ok stages →
        engine.Keeps stages := by
  constructor
  · obtain ⟨known, returned⟩ := query_of_toQuery returned
    have kept := (Staging.keeps_compositional unobtrusive ⟨known, simplifies⟩).of_query
      pipeline query returned
    exact kept tidy context _ clean (clean query.domain)
  · intro step member target stages staged
    have kept := (Staging.keeps_compositional unobtrusive target).of_stepStages step stages staged
    exact kept (tidy_of_mem member tidy)

/-- The dearest order of every customer beside the customer, and the cheapest ones of before. -/
def dearest : Pipeline :=
  [.domain "orders", .transform (.argmax "price" (some ["customer"])),
    .join (.named "customers") "inner" (some [("customer", "id")]),
    .append (some [.inline [.domain "archive", .transform (.argmin "price" none)]])]

/-- Orders, also in the archive, and customers. -/
def shop : Context where
  collections source :=
    if source = "customers" then [[("city", .int 3), ("id", .int 1)], [("city", .int 4), ("id", .int 2)]]
    else [[("customer", .int 1), ("price", .int 5)], [("customer", .int 1), ("price", .int 7)]]
  bound := []

theorem shop_clean : shop.IsClean := by
  intro source
  unfold shop Fields.IsClean Fields.Named
  dsimp only
  split <;> decide

theorem tidy_dearest : ∀ operation ∈ operations dearest, operation.Tidy := by
  have listed : operations dearest =
      [.argmax "price" (some ["customer"]), .argmin "price" none] := rfl
  rw [listed, List.forall_mem_cons, List.forall_mem_singleton]
  exact ⟨⟨nofun, by decide⟩, ⟨nofun, by decide⟩⟩

theorem unobtrusive_whole : Engine.whole.Unobtrusive where
  scalar operator among arguments value made := by
    simp only [List.mem_cons, List.not_mem_nil, or_false] at among
    rcases among with rfl | rfl <;> cases made
  clean operator argument fields _ made := by
    change Engine.wholeOperate operator [argument] = some (.map fields) at made
    unfold Engine.wholeOperate at made
    split at made <;> cases made

theorem toQuery_dearest_clean : ∃ query, dearest.toQuery "" true = .ok query ∧
    ∀ row ∈ Engine.whole.rows query shop, row.IsClean := by
  have compiles : ∃ query, dearest.toQuery "" true = .ok query := ⟨_, rfl⟩
  obtain ⟨query, returned⟩ := compiles
  exact ⟨query, returned,
    (toQuery_rows_clean returned tidy_dearest unobtrusive_whole shop_clean).1⟩

end Pipeline

end StepQuery
