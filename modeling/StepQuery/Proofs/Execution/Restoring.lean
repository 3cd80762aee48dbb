import StepQuery.Proofs.Execution.Grouping
import StepQuery.Proofs.Execution.Tidiness

/-!
Rows that are gathered and taken out of their groups again.  Between the two a row stands beside what
was gathered over its group, and keeps its number in the group if it is counted.  What is computed
there is put into the row, and nothing else of it changes, whatever the groups are and however many.
-/

namespace StepQuery

open Staging (names pushedRows)

/-- A row that is as another was but for some columns. -/
structure ChangedIn (columns : List String) (row made : Fields Value) : Prop where
  ascending : made.Ascending
  kept : ∀ name, name ∉ columns → made.get? name = row.get? name

theorem ChangedIn.mono {columns others : List String} (within : ∀ name ∈ columns, name ∈ others)
    {row made : Fields Value} (changed : ChangedIn columns row made) : ChangedIn others row made :=
  ⟨changed.ascending, fun name other => changed.kept name fun member => other (within name member)⟩

/-- How the rows of a group are taken out of their array, numbered if a name is given for it. -/
def unwindRows : Option String → Term
  | none => Term.column temporary.rows
  | some name => Term.fields [("path", Term.column temporary.rows), ("includeArrayIndex", Term.text name)]

theorem ofValue?_unwindRows (index : Option String) :
    Unwinding.ofValue? (unwindRows index).data = some ⟨[temporary.rows], index, false⟩ := by
  cases index with
  | none => exact Unwinding.ofValue?_column (by decide)
  | some name =>
    have below : "includeArrayIndex" < "path" := by decide
    have sorted : Fields.ofList [("path", Term.column temporary.rows),
        ("includeArrayIndex", Term.text name)] =
          [("includeArrayIndex", Term.text name), ("path", Term.column temporary.rows)] :=
      Fields.set_of_below _ (List.forall_mem_singleton.mpr below)
    rw [unwindRows, Term.fields, sorted]
    rfl

/-- What is gathered of rows that are kept, and the results that are put into each of them. -/
structure Restoration where
  gathered : Fields Term
  index : Option String
  results : Fields Term
  named : ∀ field ∈ gathered, isFieldName field.1
  ascending : gathered.Ascending
  pushed : gathered.get? temporary.rows = some pushedRows
  uncounted : temporary.rows ∉ index
  sorted : results.Ascending
  unmarked : ∀ field ∈ results, isMarked field.1 = false
  accepted : ∀ field ∈ results, ∀ (engine : Engine) (view : View), engine.Accepts view field.2

namespace Restoration

theorem isFieldName_identity : isFieldName "_id" := by decide

theorem isFieldName_rows : isFieldName temporary.rows := by decide

/-- Of entries of the same name the last counts. -/
def ofEntries (gathered results : List (String × Term)) (index : Option String)
    (named : ∀ entry ∈ gathered, isFieldName entry.1)
    (pushed : (Fields.ofList gathered).get? temporary.rows = some pushedRows)
    (uncounted : temporary.rows ∉ index) (unmarked : ∀ entry ∈ results, isMarked entry.1 = false)
    (accepted : ∀ entry ∈ results, ∀ (engine : Engine) (view : View), engine.Accepts view entry.2) :
    Restoration where
  gathered := Fields.ofList gathered
  index := index
  results := Fields.ofList results
  named entry member := named entry (Fields.mem_ofList member)
  ascending := Fields.ascending_ofList gathered
  pushed := pushed
  uncounted := uncounted
  sorted := Fields.ascending_ofList results
  unmarked entry member := unmarked entry (Fields.mem_ofList member)
  accepted entry member := accepted entry (Fields.mem_ofList member)

variable (restoration : Restoration) (engine : Engine) (context : Context)

def stages : List Stage :=
  [.group restoration.gathered, .unwind (unwindRows restoration.index),
    .replaceRoot (Term.call "$mergeObjects"
      [Term.column temporary.rows, .document restoration.results])]

/-- A row beside what its group has gathered. -/
def beside (standing : Standing (Fields Value)) : Fields Value :=
  engine.unwoundItem ⟨[temporary.rows], restoration.index, false⟩
    (engine.gatheredRow restoration.gathered context standing.group) (some (.map standing.row))
    (.int (Int64.ofNat standing.index))

/-- A row with its results. -/
def restored (standing : Standing (Fields Value)) : Fields Value :=
  standing.row.overlay
    (engine.computed context restoration.results (restoration.beside engine context standing))

section Beside

variable {restoration engine context} {standing : Standing (Fields Value)}

theorem get?_beside_rows :
    (restoration.beside engine context standing).get? temporary.rows = some (.map standing.row) := by
  refine Engine.get?_unwoundItem rfl ?_ _ _ _
  rintro counted isIndex rfl
  exact restoration.uncounted isIndex

theorem get?_beside_gathered {name : String} (other : name ≠ temporary.rows)
    (uncounted : name ∉ restoration.index) (identity : name ≠ "_id") :
    (restoration.beside engine context standing).get? name =
      (restoration.gathered.get? name).bind (engine.accumulated context standing.group) := by
  rw [← Engine.get?_gatheredRow restoration.ascending identity]
  have changed : Fields.get? (engine.change (engine.gatheredRow restoration.gathered context
      standing.group) (.write (some (.map standing.row))) [temporary.rows]
        (engine.gatheredRow restoration.gathered context standing.group)) name =
      (engine.gatheredRow restoration.gathered context standing.group).get? name :=
    Fields.get?_set_of_ne other.symm _ _
  rw [beside, Engine.unwoundItem]
  split
  next counted isIndex =>
    have different : counted ≠ name := fun same => uncounted (same ▸ isIndex)
    exact (Fields.get?_set_of_ne different _ _).trans changed
  next => exact changed

theorem get?_beside_index {name : String} (counted : restoration.index = some name) :
    (restoration.beside engine context standing).get? name =
      some (.int (Int64.ofNat standing.index)) := by
  rw [beside, Engine.unwoundItem, counted]
  exact Fields.get?_set_self _ _ _

theorem get?_restored (name : String) :
    (restoration.restored engine context standing).get? name =
      ((restoration.results.get? name).bind
        (engine.read context (restoration.beside engine context standing))).or
          (standing.row.get? name) := by
  rw [restored, Fields.get?_overlay (Engine.ascending_computed restoration.sorted _),
    Engine.get?_computed restoration.sorted]

theorem changedIn_restored (ascending : standing.row.Ascending) :
    ChangedIn restoration.results.names standing.row
      (restoration.restored engine context standing) where
  ascending := ascending.overlay _
  kept name other := by
    rw [get?_restored, Fields.get?_eq_none_iff.mpr other]
    rfl

end Beside

variable {context}

theorem unwound_gatheredRow (group : List (Fields Value)) :
    engine.unwound ⟨[temporary.rows], restoration.index, false⟩
        (engine.gatheredRow restoration.gathered context group) =
      (group.zipIdx.map fun entry => ⟨group, entry.1, entry.2⟩).map
        (restoration.beside engine context) := by
  have reached : (engine.gatheredRow restoration.gathered context group).reach [temporary.rows] =
      some (.list (group.map .map)) :=
    engine.get?_groupRow_pushed context (by decide) restoration.pushed _
  unfold Engine.unwound
  dsimp only
  rw [reached]
  cases group with
  | nil => rfl
  | cons row rest =>
    change (List.map Value.map (row :: rest)).zipIdx.map _ = _
    rw [List.zipIdx_map, List.map_map, List.map_map]
    rfl

theorem replaceRoot_beside {standing : Standing (Fields Value)} (ascending : standing.row.Ascending) :
    engine.replaceRoot (Term.call "$mergeObjects"
        [Term.column temporary.rows, .document restoration.results]) context
        (restoration.beside engine context standing) =
      some (restoration.restored engine context standing) := by
  have evaluated := Engine.evaluate_document restoration.unmarked
    fun field member => restoration.accepted field member engine
      ⟨restoration.beside engine context standing, context.bound⟩
  rw [Engine.replaceRoot_eq_some, Engine.read_operator_column (by decide) (by decide) (by decide)
    (by decide) _ _ evaluated, get?_beside_rows]
  change some (Value.map ((Fields.overlay [] standing.row).overlay _)) = _
  rw [Fields.nil_overlay ascending]
  rfl

/-- Every row of every group is there again, with its results. -/
theorem run_restored {groups : List (List (Fields Value))}
    (ascending : ∀ group ∈ groups, ∀ row ∈ group, row.Ascending) :
    engine.run [.unwind (unwindRows restoration.index), .replaceRoot (Term.call "$mergeObjects"
        [Term.column temporary.rows, .document restoration.results])] context
        (groups.map (engine.gatheredRow restoration.gathered context)) =
      (standings groups).map (restoration.restored engine context) := by
  have taken : engine.run [.unwind (unwindRows restoration.index)] context
      (groups.map (engine.gatheredRow restoration.gathered context)) =
        (standings groups).map (restoration.beside engine context) := by
    rw [Engine.run_unwind engine context _ _ (ofValue?_unwindRows restoration.index),
      List.flatMap_map, standings, List.map_flatMap]
    exact List.flatMap_congr fun group _ => restoration.unwound_gatheredRow engine group
  rw [Engine.run_cons, taken, Engine.run_replaceRoot, List.filterMap_map, ← List.filterMap_eq_map]
  apply List.filterMap_congr
  intro standing member
  obtain ⟨isGroup, within⟩ := mem_group_of_mem_standings member
  exact restoration.replaceRoot_beside engine (ascending _ isGroup _ within)

variable (context) {columns : ColumnList} {rows : List (Fields Value)}

theorem run_stages (ascending : ∀ row ∈ rows, row.Ascending) :
    ∃ groups, Grouped (fun row other => engine.same (engine.groupKey restoration.gathered context row)
        (engine.groupKey restoration.gathered context other)) rows groups ∧
      engine.run restoration.stages context rows =
        (standings groups).map (restoration.restored engine context) := by
  obtain ⟨groups, grouped, run⟩ := Engine.run_group_keys engine context restoration.named rows
  refine ⟨groups, grouped, ?_⟩
  rw [stages, Engine.run_cons, run]
  exact restoration.run_restored engine fun group isGroup row within =>
    ascending row (grouped.mem_rows isGroup within)

theorem run_stages_columns (gathers : restoration.gathered.get? "_id" = some (Staging.groupId columns))
    (plain : ∀ name ∈ names columns, isFieldName name) (ascending : ∀ row ∈ rows, row.Ascending) :
    ∃ groups, Grouped (engine.sharesGroup columns) rows groups ∧
      engine.run restoration.stages context rows =
        (standings groups).map (restoration.restored engine context) := by
  obtain ⟨groups, grouped, run⟩ :=
    Engine.run_group_columns engine context restoration.named gathers plain ascending
  refine ⟨groups, grouped, ?_⟩
  rw [stages, Engine.run_cons, run]
  exact restoration.run_restored engine fun group isGroup row within =>
    ascending row (grouped.mem_rows isGroup within)

/-- No row is lost, and none is changed but in the results. -/
theorem exists_arranged (ascending : ∀ row ∈ rows, row.Ascending) :
    ∃ arranged : List (Fields Value), arranged.Perm rows ∧
      List.Forall₂ (ChangedIn restoration.results.names) arranged
        (engine.run restoration.stages context rows) := by
  obtain ⟨groups, grouped, run⟩ := restoration.run_stages engine context ascending
  refine ⟨(standings groups).map (·.row), (map_row_standings groups).symm ▸ grouped.perm, ?_⟩
  rw [run, List.forall₂_map_left_iff, List.forall₂_map_right_iff, List.forall₂_same]
  intro standing member
  obtain ⟨isGroup, within⟩ := mem_group_of_mem_standings member
  exact changedIn_restored (ascending _ (grouped.mem_rows isGroup within))

end Restoration

namespace Staging

section Results

variable {engine : Engine} (view : View)

theorem accepts_size (name : String) :
    engine.Accepts view (Term.apply "$size" (Term.column name)) :=
  Engine.accepts_apply view (by decide) (by decide) nofun (Engine.accepts_column view name)

theorem accepts_runningSum (column : String) : engine.Accepts view (runningSum column) := by
  have one : engine.Accepts view (Term.int 1) := Engine.accepts_constant view rfl
  have next : engine.Accepts view (Term.call "$add" [Term.column temporary.index, Term.int 1]) :=
    Engine.accepts_call view (by decide) (by decide) (by decide) (by
      simpa using ⟨Engine.accepts_column view _, one⟩)
  apply Engine.accepts_apply view (by decide) (by decide) (Engine.data_call_ne_list _ _)
  apply Engine.accepts_call view (by decide) (by decide) (by decide)
  simpa using ⟨Engine.accepts_column view _, next⟩

theorem accepts_share {test : Term} {terms : List Term} (tests : engine.Accepts view test)
    (each : ∀ term ∈ terms, engine.Accepts view term) :
    engine.Accepts view (Term.cond test Term.null (Term.call "$divide" terms)) := by
  have null : engine.Accepts view Term.null := Engine.accepts_constant view rfl
  have share : engine.Accepts view (Term.call "$divide" terms) :=
    Engine.accepts_call view (by decide) (by decide) (by decide) each
  apply Engine.accepts_call view (by decide) (by decide) (by decide)
  simpa using ⟨tests, null, share⟩

end Results

end Staging

namespace Staging

section Gathered

variable {columns : ColumnList} {fields : List (String × Term)}

/-- The fields with which rows are gathered by columns. -/
def gatheredFields (columns : ColumnList) (fields : List (String × Term)) : List (String × Term) :=
  [("_id", groupId columns), (temporary.rows, pushedRows)] ++ fields

theorem named_gatheredFields (named : ∀ field ∈ fields, isFieldName field.1) :
    ∀ field ∈ gatheredFields columns fields, isFieldName field.1 := by
  simp only [gatheredFields, List.forall_mem_append, List.forall_mem_cons]
  exact ⟨⟨Restoration.isFieldName_identity, Restoration.isFieldName_rows, List.forall_mem_nil _⟩, named⟩

theorem get?_gatheredFields_rows (others : ∀ field ∈ fields, field.1 ≠ temporary.rows) :
    (Fields.ofList (gatheredFields columns fields)).get? temporary.rows = some pushedRows :=
  Fields.get?_ofList_append [("_id", groupId columns)] temporary.rows pushedRows others

theorem get?_gatheredFields_identity (others : ∀ field ∈ fields, field.1 ≠ "_id") :
    (Fields.ofList (gatheredFields columns fields)).get? "_id" = some (groupId columns) :=
  Fields.get?_ofList_cons "_id" _ (List.forall_mem_cons.mpr ⟨by decide, others⟩)

end Gathered

end Staging

open Staging

namespace Restoration

section Gathers

variable (columns : ColumnList) (fields results : List (String × Term)) (index : Option String)
  (named : ∀ field ∈ fields, isFieldName field.1 ∧ field.1 ≠ temporary.rows)
  (uncounted : temporary.rows ∉ index) (unmarked : ∀ entry ∈ results, isMarked entry.1 = false)
  (accepted : ∀ entry ∈ results, ∀ (engine : Engine) (view : View), engine.Accepts view entry.2)

/-- Rows gathered by columns, with further fields. -/
def ofGather : Restoration :=
  ofEntries (gatheredFields columns fields) results index
    (named_gatheredFields fun field member => (named field member).1)
    (get?_gatheredFields_rows fun field member => (named field member).2) uncounted unmarked accepted

variable {columns fields results index named uncounted unmarked accepted}

theorem get?_ofGather_identity (others : ∀ field ∈ fields, field.1 ≠ "_id") :
    (ofGather columns fields results index named uncounted unmarked accepted).gathered.get? "_id" =
      some (groupId columns) :=
  get?_gatheredFields_identity others

theorem get?_ofGather {name : String} {term : Term} (member : (name, term) ∈ fields)
    (identity : name ≠ "_id") (agree : ∀ field ∈ fields, field.1 = name → field.2 = term) :
    (ofGather columns fields results index named uncounted unmarked accepted).gathered.get? name =
      some term := by
  apply Fields.get?_ofList_of_agree (List.mem_append_right _ member)
  intro entry within same
  rcases List.mem_append.mp within with base | further
  · simp only [List.mem_cons, List.not_mem_nil, or_false] at base
    rcases base with rfl | rfl
    · exact absurd same.symm identity
    · exact absurd same.symm (named _ member).2
  · exact agree entry further same

end Gathers

theorem isFieldName_total : isFieldName temporary.total ∧ temporary.total ≠ temporary.rows := by
  decide

theorem rows_notMem_none : temporary.rows ∉ (none : Option String) :=
  Option.not_mem_none _

theorem rows_notMem_index : temporary.rows ∉ some temporary.index := by
  rw [Option.mem_some]
  decide

/-- The shares of a column, restored with the total of their group. -/
def percentage (column : String) (group : ColumnList) (newColumn : String)
    (unmarked : isMarked newColumn = false) : Restoration :=
  ofGather group [(temporary.total, Term.apply "$sum" (Term.column column))]
    [(newColumn, Term.cond
      (Term.call "$eq" [Term.column temporary.total, Term.int 0]) Term.null
      (Term.call "$divide"
        [Term.column (temporary.rows ++ "." ++ column), Term.column temporary.total]))]
    none (List.forall_mem_singleton.mpr isFieldName_total) rows_notMem_none
    (List.forall_mem_singleton.mpr unmarked)
    (List.forall_mem_singleton.mpr fun engine view => accepts_share view
      (Engine.accepts_call view (by decide) (by decide) (by decide) (by
        simpa using ⟨Engine.accepts_column view _, Engine.accepts_constant view rfl⟩))
      (by simpa using ⟨Engine.accepts_column view _, Engine.accepts_column view _⟩))

/-- What is collected of the columns that are summed. -/
def collections (pairs : List (String × String)) : List (String × Term) :=
  pairs.map fun pair => (collectedName pair.1, Term.apply "$push" (Term.column pair.1))

theorem named_collections {pairs : List (String × String)}
    (collects : ∀ pair ∈ pairs, isFieldName (collectedName pair.1)) :
    ∀ field ∈ collections pairs, isFieldName field.1 ∧ field.1 ≠ temporary.rows := by
  intro field member
  obtain ⟨pair, within, rfl⟩ := List.mem_map.mp member
  exact ⟨collects pair within, collectedName_ne_rows pair.1⟩

theorem accepts_cumulated (pairs : List (String × String)) :
    ∀ field ∈ pairs.map cumulated, ∀ (engine : Engine) (view : View),
      engine.Accepts view field.2 := by
  intro field member engine view
  obtain ⟨pair, _, rfl⟩ := List.mem_map.mp member
  exact accepts_runningSum view pair.1

/-- Columns that are summed up to a row, restored with their values in the group. -/
def cumSum (pairs : List (String × String)) (groups : ColumnList)
    (collects : ∀ pair ∈ pairs, isFieldName (collectedName pair.1))
    (unmarked : ∀ field ∈ pairs.map cumulated, isMarked field.1 = false) : Restoration :=
  ofGather groups (collections pairs) (pairs.map cumulated) (some temporary.index)
    (named_collections collects) rows_notMem_index unmarked (accepts_cumulated pairs)

section Cumulated

variable {pairs : List (String × String)} {groups : ColumnList}
  {collects : ∀ pair ∈ pairs, isFieldName (collectedName pair.1)}
  {unmarked : ∀ field ∈ pairs.map cumulated, isMarked field.1 = false}

theorem get?_cumSum_identity :
    (cumSum pairs groups collects unmarked).gathered.get? "_id" = some (groupId groups) := by
  apply get?_ofGather_identity
  intro field member
  obtain ⟨pair, _, rfl⟩ := List.mem_map.mp member
  exact collectedName_ne (by decide) pair.1

/-- The values of a column are collected once, however often it is summed. -/
theorem get?_cumSum_collected {pair : String × String} (member : pair ∈ pairs) :
    (cumSum pairs groups collects unmarked).gathered.get? (collectedName pair.1) =
      some (Term.apply "$push" (Term.column pair.1)) := by
  refine get?_ofGather (List.mem_map.mpr ⟨pair, member, rfl⟩) (collectedName_ne (by decide) _) ?_
  intro field within same
  obtain ⟨other, _, rfl⟩ := List.mem_map.mp within
  have column : other.1 = pair.1 := (String.append_right_inj "_vqb_").mp same
  rw [column]

end Cumulated

/-- Columns of groups, restored with what was gathered for them. -/
def aggregation (on : ColumnList) (columns : List Aggregated)
    (named : ∀ field ∈ columns.map fun column => (column.name, column.gathered), isFieldName field.1)
    (unmarked : ∀ field ∈ columns.map fun column => (column.name, column.merged),
      isMarked field.1 = false)
    (accepted : ∀ field ∈ columns.map fun column => (column.name, column.merged),
      ∀ (engine : Engine) (view : View), engine.Accepts view field.2) : Restoration :=
  ofEntries
    (("_id", groupId on) :: (columns.map fun column => (column.name, column.gathered)) ++
      [(temporary.rows, pushedRows)])
    (columns.map fun column => (column.name, column.merged)) none
    (by
      rw [List.cons_append, List.forall_mem_cons, List.forall_mem_append, List.forall_mem_singleton]
      exact ⟨isFieldName_identity, named, isFieldName_rows⟩)
    (Fields.get?_ofList_append _ temporary.rows pushedRows (List.forall_mem_nil _))
    rows_notMem_none unmarked accepted

end Restoration

namespace Operation

/-- The columns that an operation adds to the rows of groups which it takes out again, if it is one of
those that do. -/
def resultColumns? : Operation → Option (List String)
  | .aggregate _ aggregations true =>
    some ((aggregations.getD []).flatMap fun aggregation => names aggregation.newColumns)
  | .percentage column _ newColumn =>
    some [if newColumn == "" then column ++ "_PCT" else newColumn]
  | .cumSum pairs _ _ =>
    some ((pairs.getD []).map fun pair =>
      if pair.2 == "" then pair.1 ++ "_CUMSUM" else pair.2)
  | _ => none

end Operation

namespace Staging

theorem isFieldName_collectedName {column : String} (undotted : '.' ∉ column.toList) :
    isFieldName (collectedName column) := by
  have stem : isFieldName "_vqb_" := by decide
  exact isFieldName_append stem undotted

/-- A new column that is left out has the name of the old one with a suffix. -/
theorem isFieldName_newColumn {column newColumn suffix : String}
    (old : column ≠ "" → isFieldName column) (new : newColumn ≠ "" → isFieldName newColumn)
    (ending : isFieldName suffix) :
    isFieldName (if newColumn == "" then column ++ suffix else newColumn) := by
  by_cases given : newColumn = ""
  · rw [if_pos (beq_iff_eq.mpr given)]
    by_cases empty : column = ""
    · rwa [empty, String.empty_append]
    · exact isFieldName_append (old empty) (undotted_of_isFieldName ending)
  · rw [if_neg (by simpa using given)]
    exact new given

theorem accepts_merged {asked : List Request} {found : List Aggregated}
    (met : List.Forall₂ Request.Meets asked found) : ∀ column ∈ found,
      ∀ (engine : Engine) (view : View), engine.Accepts view column.merged := by
  intro column member engine view
  obtain ⟨request, _, meets⟩ := exists_request met member
  rw [meets.merged]
  split
  · exact accepts_size view _
  · exact Engine.accepts_column view _

theorem exists_restoration_aggregate {on : ColumnList} {aggregations : List Aggregation}
    {stages : List Stage}
    (plain : ∀ aggregation ∈ aggregations, ∀ name ∈ names aggregation.newColumns, isFieldName name)
    (returned : aggregate on aggregations true = .ok stages) :
    ∃ restoration : Restoration, (∀ name ∈ restoration.results.names,
      ∃ aggregation ∈ aggregations, name ∈ names aggregation.newColumns) ∧
        stages = restoration.stages := by
  obtain ⟨columns, written, returned⟩ := Attempt.bind_eq_ok.mp returned
  cases returned
  have new := mem_of_aggregatedAll written
  have field : ∀ column ∈ columns, isFieldName column.name := by
    intro column member
    obtain ⟨aggregation, within, named⟩ := new column member
    exact plain aggregation within column.name named
  refine ⟨.aggregation on columns (List.forall_mem_map.mpr field)
    (List.forall_mem_map.mpr fun column member => isMarked_of_isFieldName (field column member))
    (List.forall_mem_map.mpr (accepts_merged (meets_aggregatedAll written))), ?_, rfl⟩
  intro name member
  obtain ⟨entry, within, rfl⟩ := List.mem_map.mp member
  obtain ⟨column, isColumn, rfl⟩ := List.mem_map.mp (Fields.mem_ofList within)
  exact new column isColumn

theorem isFieldName_collected {pairs : List (String × String)}
    (plain : ∀ pair ∈ pairs, pair.1 ≠ "" → isFieldName pair.1) :
    ∀ pair ∈ pairs, isFieldName (collectedName pair.1) := by
  intro pair member
  apply isFieldName_collectedName
  by_cases given : pair.1 = ""
  · rw [given]
    exact List.not_mem_nil
  · exact undotted_of_isFieldName (plain pair member given)

theorem unmarked_cumulated {pairs : List (String × String)}
    (plain : ∀ pair ∈ pairs, (pair.1 ≠ "" → isFieldName pair.1) ∧ (pair.2 ≠ "" → isFieldName pair.2)) :
    ∀ field ∈ pairs.map cumulated, isMarked field.1 = false := by
  intro field member
  obtain ⟨pair, within, rfl⟩ := List.mem_map.mp member
  obtain ⟨old, new⟩ := plain pair within
  exact isMarked_of_isFieldName (isFieldName_newColumn old new (by decide))

theorem cumSum_eq {pairs : List (String × String)} (given : pairs ≠ []) (reference : String)
    (groups : ColumnList) (collects : ∀ pair ∈ pairs, isFieldName (collectedName pair.1))
    (unmarked : ∀ field ∈ pairs.map cumulated, isMarked field.1 = false) :
    cumSum pairs reference groups = .ok
      (.sort [(reference, 1)] :: (Restoration.cumSum pairs groups collects unmarked).stages) := by
  cases pairs with
  | nil => exact absurd rfl given
  | cons pair rest => rfl

theorem exists_restoration_cumSum {pairs : List (String × String)} {reference : String}
    {groups : ColumnList} {stages : List Stage}
    (plain : ∀ pair ∈ pairs, (pair.1 ≠ "" → isFieldName pair.1) ∧ (pair.2 ≠ "" → isFieldName pair.2))
    (returned : cumSum pairs reference groups = .ok stages) :
    ∃ restoration : Restoration, (∀ name ∈ restoration.results.names,
      name ∈ pairs.map fun pair => if pair.2 == "" then pair.1 ++ "_CUMSUM" else pair.2) ∧
        stages = .sort [(reference, 1)] :: restoration.stages := by
  have summed : pairs ≠ [] := by
    rintro rfl
    cases returned
  have collects := isFieldName_collected fun pair member => (plain pair member).1
  rw [cumSum_eq summed reference groups collects (unmarked_cumulated plain)] at returned
  cases returned
  refine ⟨.cumSum pairs groups collects (unmarked_cumulated plain), ?_, rfl⟩
  intro name member
  obtain ⟨entry, within, rfl⟩ := List.mem_map.mp member
  obtain ⟨pair, isPair, rfl⟩ := List.mem_map.mp (Fields.mem_ofList within)
  exact List.mem_map_of_mem isPair

/-- The stages of an operation that adds results of groups to their rows restore them, perhaps sorted. -/
theorem exists_restoration {backend : Backend} {operation : Operation} {added : List String}
    {stages : List Stage} (gives : operation.resultColumns? = some added)
    (plain : ∀ name ∈ operation.columns, name ≠ "" → isFieldName name)
    (new : ∀ name ∈ added, name ≠ "")
    (returned : operationStages backend operation = .ok stages) :
    ∃ restoration : Restoration, (∀ name ∈ restoration.results.names, name ∈ added) ∧
      (stages = restoration.stages ∨
        ∃ reference, stages = .sort [(reference, 1)] :: restoration.stages) := by
  cases operation with
  | aggregate on aggregations keepRows =>
    cases keepRows with
    | false => cases gives
    | true =>
      cases gives
      have field : ∀ aggregation ∈ aggregations.getD [], ∀ name ∈ names aggregation.newColumns,
          isFieldName name := by
        intro aggregation member name within
        refine plain name ?_ (new name (List.mem_flatMap.mpr ⟨aggregation, member, within⟩))
        exact List.mem_append_right _
          (List.mem_flatMap.mpr ⟨aggregation, member, List.mem_append_right _ within⟩)
      obtain ⟨restoration, results, same⟩ := exists_restoration_aggregate field returned
      exact ⟨restoration, fun name member => List.mem_flatMap.mpr (results name member), .inl same⟩
  | percentage column group newColumn =>
    cases gives
    cases returned
    have field : isFieldName (if newColumn == "" then column ++ "_PCT" else newColumn) :=
      isFieldName_newColumn (plain column (by simp [Operation.columns]))
        (plain newColumn (by simp [Operation.columns])) (by decide)
    exact ⟨.percentage column group _ (isMarked_of_isFieldName field), fun name member => member,
      .inl rfl⟩
  | cumSum pairs reference groups =>
    cases gives
    have field : ∀ pair ∈ pairs.getD [],
        (pair.1 ≠ "" → isFieldName pair.1) ∧ (pair.2 ≠ "" → isFieldName pair.2) := by
      intro pair member
      constructor <;> apply plain <;> exact List.mem_append_right _
        (List.mem_flatMap.mpr ⟨pair, member, by simp⟩)
    obtain ⟨restoration, results, same⟩ := exists_restoration_cumSum field returned
    exact ⟨restoration, results, .inr ⟨reference, same⟩⟩
  | _ => cases gives

/-- An operation that adds results of groups to their rows keeps every row, and changes it in nothing
but the new columns, by whichever columns they are grouped. -/
theorem operation_rows_restored {target : Target} {operation : Operation} {added : List String}
    {stages : List Stage} {engine : Engine} {context : Context} {rows : List (Fields Value)}
    (gives : operation.resultColumns? = some added)
    (plain : ∀ name ∈ operation.columns, name ≠ "" → isFieldName name)
    (new : ∀ name ∈ added, name ≠ "")
    (returned : stepStages target (.transform operation) = .ok stages)
    (ascending : ∀ row ∈ rows, row.Ascending) :
    ∃ arranged : List (Fields Value), arranged.Perm rows ∧
      List.Forall₂ (ChangedIn added) arranged (engine.run stages context rows) := by
  obtain ⟨restoration, within, staged⟩ := exists_restoration gives plain new returned
  rcases staged with rfl | ⟨reference, rfl⟩
  · obtain ⟨arranged, perm, each⟩ := restoration.exists_arranged engine context ascending
    exact ⟨arranged, perm, each.imp fun _ _ changed => changed.mono within⟩
  · have sorted := engine.sort_perm [(reference, 1)] rows
    obtain ⟨arranged, perm, each⟩ := restoration.exists_arranged engine context
      fun row member => ascending row (sorted.mem_iff.mp member)
    exact ⟨arranged, perm.trans sorted, each.imp fun _ _ changed => changed.mono within⟩

/-- The total of every customer in each of their orders. -/
def customerTotals : Operation :=
  .aggregate (some ["customer"]) (some [⟨some ["price"], some ["total"], "sum"⟩]) true

def customerOrders : List (Fields Value) :=
  [[("customer", .int 1), ("price", .int 5)], [("customer", .int 2), ("price", .int 3)],
    [("customer", .int 1), ("price", .int 7)]]

theorem operation_rows_restored_totals : ∃ stages, ∃ arranged : List (Fields Value),
    stepStages ⟨.usual, false⟩ (.transform customerTotals) = .ok stages ∧
      arranged.Perm customerOrders ∧
      List.Forall₂ (ChangedIn ["total"]) arranged
        (Engine.whole.run stages ⟨fun _ => [], []⟩ customerOrders) := by
  have staged : ∃ stages, stepStages ⟨.usual, false⟩ (.transform customerTotals) = .ok stages :=
    ⟨_, rfl⟩
  obtain ⟨stages, returned⟩ := staged
  have plain : ∀ name ∈ customerTotals.columns, name ≠ "" → isFieldName name := by decide
  have ascending : ∀ row ∈ customerOrders, row.Ascending := by decide
  obtain ⟨arranged, perm, each⟩ : ∃ arranged : List (Fields Value), arranged.Perm customerOrders ∧
      List.Forall₂ (ChangedIn ["total"]) arranged
        (Engine.whole.run stages ⟨fun _ => [], []⟩ customerOrders) :=
    operation_rows_restored rfl plain (by decide) returned ascending
  exact ⟨stages, arranged, returned, perm, each⟩

end Staging

end StepQuery
