import StepQuery.Proofs.Execution.Restoring

/-!
What aggregations come to, whether a group becomes one row or its rows are kept.  The results are put
together twice, as columns of the one row and as columns of every row, and in both of them the last
request for a new column counts, as it does where the values are gathered.  So a row that is kept shows
in every new column what the one row of its group shows.
-/

namespace StepQuery

open Staging (names groupId pushedRows groupColumns Request requests Aggregated accumulator
  combination get?_combination ascending_combination)

namespace Engine

variable {engine : Engine} {context : Context}

section Distinct

/-- The different ones of values, each of them once. -/
structure Distinct (engine : Engine) (values items : List Value) : Prop where
  among : ∀ item ∈ items, item ∈ values
  each : ∀ value ∈ values, ∃ item ∈ items, engine.same value item
  apart : items.Pairwise fun item other => engine.same item other = false

/-- Of values that are the same the first. -/
def distinct (engine : Engine) : List Value → List Value
  | [] => []
  | value :: rest => value :: (distinct engine rest).filter fun other => !engine.same value other

theorem distinct_distinct (engine : Engine) (values : List Value) :
    engine.Distinct values (engine.distinct values) := by
  induction values with
  | nil => exact ⟨List.forall_mem_nil _, List.forall_mem_nil _, List.Pairwise.nil⟩
  | cons value rest inductionHypothesis =>
    obtain ⟨among, each, apart⟩ := inductionHypothesis
    refine ⟨?_, ?_, List.pairwise_cons.mpr ⟨fun item member => ?_, apart.filter _⟩⟩
    · exact List.forall_mem_cons.mpr ⟨List.mem_cons_self, fun item member =>
        List.mem_cons_of_mem _ (among item (List.mem_of_mem_filter member))⟩
    · refine List.forall_mem_cons.mpr
        ⟨⟨value, List.mem_cons_self, engine.same_equivalence.refl value⟩, fun other member => ?_⟩
      obtain ⟨item, isItem, same⟩ := each other member
      by_cases shared : engine.same value item
      · exact ⟨value, List.mem_cons_self, engine.same_equivalence.trans same
          (engine.same_equivalence.symm shared)⟩
      · exact ⟨item, List.mem_cons_of_mem _ (List.mem_filter.mpr ⟨isItem, by simp [shared]⟩), same⟩
    · simpa using (List.mem_filter.mp member).2

/-- Being the same, as an equivalence of values. -/
def sameness (engine : Engine) : Setoid Value :=
  ⟨fun value other => engine.same value other, engine.same_equivalence⟩

variable {values items others : List Value}

theorem Distinct.nodup_kinds (distinct : engine.Distinct values items) :
    (items.map (Quotient.mk engine.sameness)).Nodup := by
  apply List.pairwise_map.mpr
  refine distinct.apart.imp fun {item other} apart shared => ?_
  have same : engine.same item other = true := Quotient.exact shared
  exact Bool.false_ne_true (apart.symm.trans same)

theorem Distinct.mem_kinds_iff (distinct : engine.Distinct values items)
    (kind : Quotient engine.sameness) :
    kind ∈ items.map (Quotient.mk engine.sameness) ↔
      kind ∈ values.map (Quotient.mk engine.sameness) := by
  constructor
  · intro member
    obtain ⟨item, isItem, rfl⟩ := List.mem_map.mp member
    exact List.mem_map_of_mem (distinct.among item isItem)
  · intro member
    obtain ⟨value, isValue, rfl⟩ := List.mem_map.mp member
    obtain ⟨item, isItem, same⟩ := distinct.each value isValue
    exact List.mem_map.mpr ⟨item, isItem, (Quotient.sound same).symm⟩

/-- However the different ones are picked, there are as many of them. -/
theorem Distinct.length_eq (distinct : engine.Distinct values items)
    (also : engine.Distinct values others) : items.length = others.length := by
  have perm := (List.perm_ext_iff_of_nodup distinct.nodup_kinds also.nodup_kinds).mpr
    fun kind => (distinct.mem_kinds_iff kind).trans (also.mem_kinds_iff kind).symm
  simpa using perm.length_eq

end Distinct

end Engine

namespace Staging

/-- The functions that come to what an operator of their name gathers of a column. -/
def columnFunctions : List String := ["sum", "avg", "min", "max", "first", "last"]

theorem accumulator_eq_ok {function column : String} {gathered : Term}
    (written : accumulator function column = .ok gathered) :
    (function = "count" ∧ gathered = Term.apply "$sum" (Term.int 1)) ∨
      (function = "count distinct" ∧ gathered = Term.apply "$addToSet" (Term.column column)) ∨
      (function ∈ columnFunctions ∧ gathered = Term.apply ("$" ++ function) (Term.column column)) := by
  unfold accumulator at written
  split at written
  · cases written
    exact .inr (.inr ⟨by decide, rfl⟩)
  · cases written
    exact .inr (.inr ⟨by decide, rfl⟩)
  · cases written
    exact .inl ⟨rfl, rfl⟩
  · cases written
    exact .inr (.inl ⟨rfl, rfl⟩)
  · cases written
    exact .inr (.inr ⟨by decide, rfl⟩)
  · cases written
    exact .inr (.inr ⟨by decide, rfl⟩)
  · cases written
    exact .inr (.inr ⟨by decide, rfl⟩)
  · cases written
    exact .inr (.inr ⟨by decide, rfl⟩)
  · cases written

end Staging

open Staging (columnFunctions accumulator_eq_ok)

namespace Engine

variable {engine : Engine} {context : Context} {number : Nat → Value}

section Tallies

/-- What is documented of the operators that aggregate.  A sum of ones and the size of a list are
numbers of items, a set has the different values, and of some values something is always gathered. -/
structure Tallies (engine : Engine) (number : Nat → Value) : Prop where
  ones : ∀ count, count ≠ 0 →
    engine.accumulate "$sum" (List.replicate count (some (.int 1))) = some (number count)
  set : ∀ arguments, ∃ items, engine.accumulate "$addToSet" arguments = some (.list items) ∧
    engine.Distinct arguments.reduceOption items
  size : ∀ items, engine.operate "$size" [some (.list items)] = some (number items.length)
  gathers : ∀ function ∈ columnFunctions, ∀ arguments, arguments ≠ [] →
    (engine.accumulate ("$" ++ function) arguments).isSome

/-- What a request comes to in a group: the number of its rows, the number of different values that
its column has in them, or what is gathered of this column. -/
def tally (engine : Engine) (number : Nat → Value) (context : Context) (request : Request)
    (group : List (Fields Value)) : Option Value :=
  let values := group.map fun row => engine.read context row (Term.column request.column)
  match request.function with
  | "count" => some (number group.length)
  | "count distinct" => some (number (engine.distinct values.reduceOption).length)
  | function => engine.accumulate ("$" ++ function) values

variable {request : Request} {group : List (Fields Value)}

theorem tally_of_mem (known : request.function ∈ columnFunctions) :
    engine.tally number context request group = engine.accumulate ("$" ++ request.function)
      (group.map fun row => engine.read context row (Term.column request.column)) := by
  unfold tally
  split
  next counts =>
    rw [counts] at known
    exact absurd known (by decide)
  next distinct =>
    rw [distinct] at known
    exact absurd known (by decide)
  next => rfl

theorem tally_distinct (counted : request.function = "count distinct") :
    engine.tally number context request group = some (number (engine.distinct
      (group.map fun row => engine.read context row (Term.column request.column)).reduceOption).length) := by
  rw [tally, counted]
  rfl

theorem isSome_tally (tallies : engine.Tallies number) {gathered : Term}
    (written : accumulator request.function request.column = .ok gathered) (occupied : group ≠ []) :
    (engine.tally number context request group).isSome := by
  rcases accumulator_eq_ok written with ⟨counts, _⟩ | ⟨counted, _⟩ | ⟨known, _⟩
  · rw [tally, counts]
    rfl
  · rw [tally_distinct counted]
    rfl
  · rw [tally_of_mem known]
    exact tallies.gathers _ known _ (by simpa using occupied)

/-- What is gathered for a request is what it comes to, unless it is a set. -/
theorem accumulated_eq_tally (tallies : engine.Tallies number) {gathered : Term}
    (written : accumulator request.function request.column = .ok gathered)
    (shown : request.function ≠ "count distinct") (occupied : group ≠ []) :
    engine.accumulated context group gathered = engine.tally number context request group := by
  rcases accumulator_eq_ok written with ⟨counts, rfl⟩ | ⟨counted, _⟩ | ⟨known, rfl⟩
  · have ones : (group.map fun row => engine.read context row (Term.int 1)) =
        List.replicate group.length (some (.int 1)) := List.map_const'
    rw [accumulated_apply (by decide), ones, tallies.ones _ (by simpa using occupied), tally, counts]
    rfl
  · exact absurd counted shown
  · have other : "$" ++ request.function ≠ "$push" := by
      intro same
      have pushes : request.function = "push" := (String.append_right_inj "$").mp same
      rw [pushes] at known
      exact absurd known (by decide)
    rw [accumulated_apply other, tally_of_mem known]

/-- The size of a set is the number of different values. -/
theorem read_size (tallies : engine.Tallies number) (counted : request.function = "count distinct")
    (field : isFieldName request.newColumn) {row : Fields Value}
    (held : row.get? request.newColumn =
      engine.accumulated context group (Term.apply "$addToSet" (Term.column request.column))) :
    engine.read context row (Term.apply "$size" (Term.column request.newColumn)) =
      engine.tally number context request group := by
  obtain ⟨items, gathers, distinct⟩ :=
    tallies.set (group.map fun row => engine.read context row (Term.column request.column))
  rw [accumulated_apply (by decide), gathers] at held
  have single : ∀ items, (Term.column request.newColumn).data ≠ .list items := nofun
  rw [tally_distinct counted, ← distinct.length_eq (engine.distinct_distinct _), ← tallies.size,
    Engine.read, evaluate_apply _ (by decide) (by decide) single, Server.evaluate_column]
  have reached : View.reach ⟨row, context.bound⟩ request.newColumn = some (.list items) :=
    (View.reach_of_isFieldName field _).trans held
  change engine.apply "$size" [View.reach ⟨row, context.bound⟩ request.newColumn] = _
  rw [reached, apply_eq_operate (by decide)]

/-- Beside what was gathered for a request, both ways of showing it come to the same. -/
theorem shown_aggregated (tallies : engine.Tallies number) {made : Aggregated}
    (meets : request.Meets made) (field : isFieldName request.newColumn) (occupied : group ≠ [])
    {row : Fields Value}
    (held : row.get? request.newColumn = engine.accumulated context group made.gathered) :
    engine.shown context row request.newColumn made.projected none =
        engine.tally number context request group ∧
      engine.read context row made.merged = engine.tally number context request group := by
  rw [meets.projected, meets.merged]
  by_cases counted : request.function = "count distinct"
  · have gathered := meets.gathered
    rw [counted] at gathered
    rw [← Except.ok.inj gathered] at held
    rw [if_pos counted, if_pos counted]
    have size := read_size tallies counted field held
    exact ⟨size, size⟩
  · rw [accumulated_eq_tally tallies meets.gathered counted occupied] at held
    rw [if_neg counted, if_neg counted, read_column engine context field]
    exact ⟨held, held⟩

end Tallies

end Engine

namespace Staging

/-- A name for a new column of rows that are grouped. -/
structure IsNew (on : ColumnList) (name : String) : Prop where
  field : isFieldName name
  clean : isTemporary name = false
  other : name ≠ "_id"
  fresh : name ∉ names on

instance (on : ColumnList) (name : String) : Decidable (IsNew on name) :=
  decidable_of_iff (isFieldName name ∧ isTemporary name = false ∧ name ≠ "_id" ∧ name ∉ names on)
    ⟨fun ⟨field, clean, other, fresh⟩ => ⟨field, clean, other, fresh⟩,
      fun ⟨field, clean, other, fresh⟩ => ⟨field, clean, other, fresh⟩⟩

theorem IsNew.ne_rows {on : ColumnList} {name : String} (new : IsNew on name) :
    name ≠ temporary.rows := by
  rintro rfl
  exact absurd new.clean (by decide)

/-- Aggregated columns that meet requests for new columns of rows that are grouped. -/
structure Answers (on : ColumnList) (asked : List Request) (found : List Aggregated) : Prop where
  met : List.Forall₂ Request.Meets asked found
  new : ∀ request ∈ asked, IsNew on request.newColumn
  grouping : ∀ name ∈ names on, isFieldName name

/-- A field for each of the aggregated columns. -/
def resultFields (found : List Aggregated) (term : Aggregated → Term) : List (String × Term) :=
  found.map fun column => (column.name, term column)

def groupedFields (on : ColumnList) (found : List Aggregated) : List (String × Term) :=
  ("_id", groupId on) :: resultFields found (·.gathered)

def summaryFields (on : ColumnList) (found : List Aggregated) : List (String × Term) :=
  groupColumns on ++ resultFields found (·.projected)

/-- What a row shows that a group has become: the columns of its rows, of the requests for each new
column what the last comes to, and nothing else. -/
structure Summarizes (engine : Engine) (number : Nat → Value) (context : Context) (on : ColumnList)
    (asked : List Request) (group : List (Fields Value)) (made : Fields Value) : Prop where
  ascending : made.Ascending
  leads : ∀ name ∈ names on, ∀ row ∈ group.head?, made.get? name = row.get? name
  tallied : ∀ before request after, asked = before ++ request :: after →
    (∀ other ∈ after, other.newColumn ≠ request.newColumn) →
      made.get? request.newColumn = engine.tally number context request group
  only : ∀ name, name ∉ names on → (∀ request ∈ asked, request.newColumn ≠ name) →
    made.get? name = none

/-- What is shown of a group when it becomes one row. -/
def summary (engine : Engine) (context : Context) (on : ColumnList) (found : List Aggregated)
    (group : List (Fields Value)) : Fields Value :=
  engine.project (Fields.ofList (summaryFields on found)) context
    (engine.gatheredRow (Fields.ofList (groupedFields on found)) context group)

section Answers

variable {engine : Engine} {context : Context} {number : Nat → Value} {on : ColumnList}
  {asked : List Request} {found : List Aggregated}

namespace Answers

theorem new_of_mem (answers : Answers on asked found) {column : Aggregated} (member : column ∈ found) :
    IsNew on column.name := by
  obtain ⟨request, within, meets⟩ := exists_request answers.met member
  exact meets.name ▸ answers.new request within

theorem new_resultFields (answers : Answers on asked found) (term : Aggregated → Term) :
    ∀ field ∈ resultFields found term, IsNew on field.1 :=
  List.forall_mem_map.mpr fun _ member => answers.new_of_mem member

theorem named_groupedFields (answers : Answers on asked found) :
    ∀ field ∈ groupedFields on found, isFieldName field.1 :=
  List.forall_mem_cons.mpr ⟨Restoration.isFieldName_identity,
    fun field member => (answers.new_resultFields _ field member).field⟩

theorem named_summaryFields (answers : Answers on asked found) :
    ∀ field ∈ summaryFields on found, isFieldName field.1 := by
  rw [summaryFields, groupColumns, List.forall_mem_append, List.forall_mem_cons, List.forall_mem_map]
  exact ⟨⟨Restoration.isFieldName_identity, answers.grouping⟩,
    fun field member => (answers.new_resultFields _ field member).field⟩

theorem get?_groupedFields_identity (answers : Answers on asked found) :
    (Fields.ofList (groupedFields on found)).get? "_id" = some (groupId on) :=
  Fields.get?_ofList_cons "_id" _ fun field member => (answers.new_resultFields _ field member).other

/-- Of the last request for a new column is what is found under its name, whatever the aggregated
columns are used for and whichever fields of other names stand behind them. -/
theorem exists_made (answers : Answers on asked found) {before after : List Request}
    {request : Request} (listed : asked = before ++ request :: after)
    (last : ∀ other ∈ after, other.newColumn ≠ request.newColumn) :
    ∃ made, request.Meets made ∧ IsNew on request.newColumn ∧
      ∀ (term : Aggregated → Term) (others behind : List (String × Term)),
        (∀ field ∈ behind, field.1 ≠ request.newColumn) →
          (Fields.ofList (others ++ resultFields found term ++ behind)).get? request.newColumn =
            some (term made) := by
  subst listed
  obtain ⟨first, made, rest, rfl, meets, later⟩ := exists_met answers.met last
  have new := answers.new request (List.mem_append_right _ List.mem_cons_self)
  refine ⟨made, meets, new, fun term others behind apart => ?_⟩
  have after : ∀ field ∈ resultFields rest term ++ behind, field.1 ≠ request.newColumn :=
    List.forall_mem_append.mpr ⟨List.forall_mem_map.mpr later, apart⟩
  have written := Fields.get?_ofList_append (others ++ resultFields first term) request.newColumn
    (term made) after
  simpa [resultFields, meets.name] using written

section Summary

/-- Under a name that no request has, a summary has a column of the group or hides its identity. -/
theorem get?_summaryFields {name : String} (unasked : ∀ column ∈ found, column.name ≠ name) :
    (Fields.ofList (summaryFields on found)).get? name =
      if name ∈ names on then some (Term.column ("_id." ++ name))
      else if "_id" = name then some (Term.int 0) else none := by
  have absent : (Fields.ofList (resultFields found (·.projected))).get? name = none :=
    Fields.get?_ofList_eq_none_iff.mpr (List.forall_mem_map.mpr unasked)
  have columns := get?_forColumns on (fun column => Term.column ("_id." ++ column)) name
  rw [forColumns] at columns
  rw [summaryFields, groupColumns, Fields.get?_ofList_behind, absent, Option.none_or,
    ← List.singleton_append, Fields.get?_ofList_behind, columns]
  split
  · rfl
  · exact Fields.get?_cons _ _ _

/-- A summary names all that a group has gathered. -/
theorem get?_gatheredRow_of_unnamed {name : String} {group : List (Fields Value)}
    (unnamed : (Fields.ofList (summaryFields on found)).get? name = none) :
    (engine.gatheredRow (Fields.ofList (groupedFields on found)) context group).get? name = none := by
  rw [Fields.get?_ofList_eq_none_iff] at unnamed
  obtain ⟨columns, results⟩ := List.forall_mem_append.mp unnamed
  have other : name ≠ "_id" := fun same => columns _ List.mem_cons_self same.symm
  have unasked : ∀ column ∈ found, column.name ≠ name :=
    fun column member => results _ (List.mem_map_of_mem member)
  have absent : (Fields.ofList (groupedFields on found)).get? name = none :=
    Fields.get?_ofList_eq_none_iff.mpr
      (List.forall_mem_cons.mpr ⟨Ne.symm other, List.forall_mem_map.mpr unasked⟩)
  rw [Engine.get?_gatheredRow (Fields.ascending_ofList _) other, absent, Option.bind_none]

theorem get?_summary (answers : Answers on asked found) (group : List (Fields Value))
    (name : String) : (summary engine context on found group).get? name =
      ((Fields.ofList (summaryFields on found)).get? name).bind fun term =>
        engine.shown context (engine.gatheredRow (Fields.ofList (groupedFields on found)) context group)
          name term none := by
  have plain : ∀ field ∈ Fields.ofList (summaryFields on found), isFieldName field.1 :=
    fun field member => answers.named_summaryFields field (Fields.mem_ofList member)
  exact Engine.get?_project (Fields.ascending_ofList _) plain
    (fun _ unnamed => get?_gatheredRow_of_unnamed unnamed) name

/-- The columns of a group are those of its first row. -/
theorem get?_summary_column (answers : Answers on asked found) {head : Fields Value}
    (sorted : head.Ascending) (rest : List (Fields Value)) {name : String} (member : name ∈ names on) :
    (summary engine context on found (head :: rest)).get? name = head.get? name := by
  have identity := answers.get?_groupedFields_identity
  have key : (engine.gatheredRow (Fields.ofList (groupedFields on found)) context
      (head :: rest)).get? "_id" = some (.map (combination on head)) := by
    rw [Engine.get?_gatheredRow_identity (Fields.ascending_ofList _) identity]
    change some (engine.groupKey _ context head) = _
    rw [Engine.groupKey_columns identity answers.grouping sorted, if_neg (List.ne_nil_of_mem member)]
  have unasked : ∀ column ∈ found, column.name ≠ name := by
    rintro column isColumn rfl
    exact (answers.new_of_mem isColumn).fresh member
  rw [answers.get?_summary, get?_summaryFields unasked, if_pos member]
  refine (Engine.read_column_below Restoration.isFieldName_identity (answers.grouping name member)
    key).trans ?_
  rw [get?_combination, if_pos member]

theorem get?_summary_newColumn (answers : Answers on asked found) (tallies : engine.Tallies number)
    {group : List (Fields Value)} (occupied : group ≠ []) {before after : List Request}
    {request : Request} (listed : asked = before ++ request :: after)
    (last : ∀ other ∈ after, other.newColumn ≠ request.newColumn) :
    (summary engine context on found group).get? request.newColumn =
      engine.tally number context request group := by
  obtain ⟨made, meets, new, fields⟩ := answers.exists_made listed last
  have gathered : (Fields.ofList (groupedFields on found)).get? request.newColumn =
      some made.gathered := by
    have written := fields (·.gathered) [("_id", groupId on)] [] (List.forall_mem_nil _)
    rwa [List.append_nil] at written
  have projected : (Fields.ofList (summaryFields on found)).get? request.newColumn =
      some made.projected := by
    have written := fields (·.projected) (groupColumns on) [] (List.forall_mem_nil _)
    rwa [List.append_nil] at written
  have held : (engine.gatheredRow (Fields.ofList (groupedFields on found)) context group).get?
      request.newColumn = engine.accumulated context group made.gathered := by
    rw [Engine.get?_gatheredRow (Fields.ascending_ofList _) new.other, gathered, Option.bind_some]
  rw [answers.get?_summary, projected]
  exact (Engine.shown_aggregated tallies meets new.field occupied held).1

theorem summarizes (answers : Answers on asked found) (tallies : engine.Tallies number)
    {head : Fields Value} (sorted : head.Ascending) (rest : List (Fields Value)) :
    Summarizes engine number context on asked (head :: rest)
      (summary engine context on found (head :: rest)) where
  ascending := Engine.ascending_project _ (Engine.ascending_gatheredRow (Fields.ascending_ofList _) _)
  leads := by
    rintro name member row isHead
    obtain rfl : head = row := Option.mem_some_iff.mp isHead
    exact answers.get?_summary_column sorted rest member
  tallied _ _ _ listed last :=
    answers.get?_summary_newColumn tallies (List.cons_ne_nil _ _) listed last
  only := by
    intro name other unasked
    have unnamed : ∀ column ∈ found, column.name ≠ name := by
      intro column isColumn
      obtain ⟨request, within, meets⟩ := exists_request answers.met isColumn
      exact meets.name ▸ unasked request within
    rw [answers.get?_summary, get?_summaryFields unnamed, if_neg other]
    split <;> rfl

/-- The row of a group stands for the rows that the first row of the group belongs to. -/
theorem sharesGroup_summary (answers : Answers on asked found) {head : Fields Value}
    (sorted : head.Ascending) (rest : List (Fields Value)) (row : Fields Value) :
    engine.sharesGroup on row (summary engine context on found (head :: rest)) =
      engine.sharesGroup on row head := by
  have ascending : (summary engine context on found (head :: rest)).Ascending :=
    Engine.ascending_project _ (Engine.ascending_gatheredRow (Fields.ascending_ofList _) _)
  have same : combination on (summary engine context on found (head :: rest)) = combination on head := by
    apply (ascending_combination ascending on).ext_get? (ascending_combination sorted on)
    intro name
    rw [get?_combination, get?_combination]
    split
    next member => exact answers.get?_summary_column sorted rest member
    next => rfl
  rw [Engine.sharesGroup, same]
  rfl

variable {rows : List (Fields Value)}

variable (engine context) in
/-- Rows become one for each group of those that hold the same in the columns. -/
theorem run_summary (answers : Answers on asked found) (ascending : ∀ row ∈ rows, row.Ascending) :
    ∃ groups, Grouped (engine.sharesGroup on) rows groups ∧
      engine.run [.group (Fields.ofList (groupedFields on found)),
        .project (Fields.ofList (summaryFields on found))] context rows =
          groups.map (summary engine context on found) := by
  have named : ∀ field ∈ Fields.ofList (groupedFields on found), isFieldName field.1 :=
    fun field member => answers.named_groupedFields field (Fields.mem_ofList member)
  have paths : ((Fields.ofList (summaryFields on found)).all fun field => isFieldPath field.1) = true :=
    Fields.all_ofList_of_all fun field member =>
      isFieldPath_of_isFieldName (answers.named_summaryFields field member)
  have given : (Fields.ofList (summaryFields on found)).isEmpty = false := by
    rw [Fields.isEmpty_ofList]
    rfl
  obtain ⟨groups, grouped, run⟩ := Engine.run_group_columns engine context named
    answers.get?_groupedFields_identity answers.grouping ascending
  refine ⟨groups, grouped, ?_⟩
  rw [Engine.run_cons, run, Engine.run_project, paths, given, List.map_map]
  rfl

/-- One row stands for a row, the one that its group has become. -/
theorem filter_summaries (answers : Answers on asked found) {groups : List (List (Fields Value))}
    (grouped : Grouped (engine.sharesGroup on) rows groups) (ascending : ∀ row ∈ rows, row.Ascending)
    {row : Fields Value} (isRow : row ∈ rows) :
    ∃ group ∈ groups, row ∈ group ∧
      (groups.map (summary engine context on found)).filter (engine.sharesGroup on row) =
        [summary engine context on found group] := by
  have tells : ∀ group ∈ groups,
      engine.sharesGroup on row (summary engine context on found group) ↔ row ∈ group := by
    intro group member
    cases group with
    | nil => exact absurd rfl (grouped.occupied _ member)
    | cons head rest =>
      have isHead : head ∈ head :: rest := List.mem_cons_self
      have sorted := ascending head (grouped.mem_rows member isHead)
      rw [answers.sharesGroup_summary sorted rest, Engine.sharesGroup, Engine.same_comm]
      exact ⟨grouped.mem_of_together member isHead isRow,
        fun within => grouped.together_of_mem member isHead within⟩
  obtain ⟨group, member, within, only⟩ := grouped.filter_groups isRow tells
  refine ⟨group, member, within, ?_⟩
  rw [List.filter_map, Function.comp_def, only]
  rfl

end Summary

section Kept

/-- What is gathered for requests, restored with what they come to. -/
def restoration (answers : Answers on asked found) : Restoration :=
  .aggregation on found (fun field member => (answers.new_resultFields _ field member).field)
    (fun field member => isMarked_of_isFieldName (answers.new_resultFields _ field member).field)
    (List.forall_mem_map.mpr (accepts_merged answers.met))

theorem get?_restoration_identity (answers : Answers on asked found) :
    answers.restoration.gathered.get? "_id" = some (groupId on) := by
  refine Fields.get?_ofList_cons "_id" _ (List.forall_mem_append.mpr
    ⟨fun field member => (answers.new_resultFields _ field member).other, ?_⟩)
  exact List.forall_mem_singleton.mpr (by decide)

theorem get?_restored (answers : Answers on asked found) (tallies : engine.Tallies number)
    {standing : Standing (Fields Value)} (occupied : standing.group ≠ []) {before after : List Request}
    {request : Request} (listed : asked = before ++ request :: after)
    (last : ∀ other ∈ after, other.newColumn ≠ request.newColumn) :
    (answers.restoration.restored engine context standing).get? request.newColumn =
      engine.tally number context request standing.group := by
  obtain ⟨made, meets, new, fields⟩ := answers.exists_made listed last
  have gathered : answers.restoration.gathered.get? request.newColumn = some made.gathered :=
    fields (·.gathered) [("_id", groupId on)] [(temporary.rows, pushedRows)]
      (List.forall_mem_singleton.mpr new.ne_rows.symm)
  have merged : answers.restoration.results.get? request.newColumn = some made.merged := by
    have written := fields (·.merged) [] [] (List.forall_mem_nil _)
    rwa [List.nil_append, List.append_nil] at written
  have held : (answers.restoration.beside engine context standing).get? request.newColumn =
      engine.accumulated context standing.group made.gathered := by
    rw [Restoration.get?_beside_gathered new.ne_rows (Option.not_mem_none _) new.other, gathered,
      Option.bind_some]
  have shown := (Engine.shown_aggregated tallies meets new.field occupied held).2
  -- What the row held itself under the name counts only if nothing was gathered, which cannot be.
  rw [Restoration.get?_restored, merged, Option.bind_some, shown]
  exact Option.or_of_isSome (Engine.isSome_tally tallies meets.gathered occupied)

end Kept

end Answers

/-- Whether a row that is kept shows in some columns what the one row shows that stands for it. -/
def ShowsSummary (engine : Engine) (on : ColumnList) (columns : List String)
    (summaries : List (Fields Value)) (row made : Fields Value) : Prop :=
  ∃ one, summaries.filter (engine.sharesGroup on row) = [one] ∧
    ∀ name ∈ columns, made.get? name = one.get? name

/-- A row that is restored with the results of its group shows what the row of the group shows. -/
theorem Answers.showsSummary_restored (answers : Answers on asked found)
    (tallies : engine.Tallies number) {rows : List (Fields Value)}
    {groups parts : List (List (Fields Value))} (ascending : ∀ row ∈ rows, row.Ascending)
    (grouped : Grouped (engine.sharesGroup on) rows groups)
    (parted : Grouped (engine.sharesGroup on) rows parts) {standing : Standing (Fields Value)}
    (member : standing ∈ standings parts) :
    ShowsSummary engine on (asked.map (·.newColumn))
      (groups.map (summary engine context on found)) standing.row
      (answers.restoration.restored engine context standing) := by
  obtain ⟨isPart, within⟩ := mem_group_of_mem_standings member
  obtain ⟨group, isGroup, inside, only⟩ :=
    answers.filter_summaries grouped ascending (parted.mem_rows isPart within)
  refine ⟨_, only, ?_⟩
  -- The two runs may deal their groups in different orders, but a row is in the same group in both.
  have same : standing.group = group :=
    (parted.whole _ isPart _ within).trans (grouped.whole _ isGroup _ inside).symm
  have occupied := parted.occupied _ isPart
  intro name named
  obtain ⟨request, asks, rfl⟩ := List.mem_map.mp named
  obtain ⟨before, last, after, listed, newColumn, others⟩ := exists_last asks
  rw [← newColumn, ← same, answers.get?_restored tallies occupied listed others,
    answers.get?_summary_newColumn tallies occupied listed others]

variable (engine context) in
theorem Answers.modes_agree (answers : Answers on asked found) (tallies : engine.Tallies number)
    {rows : List (Fields Value)} (ascending : ∀ row ∈ rows, row.Ascending) :
    ∃ groups summaries arranged, Grouped (engine.sharesGroup on) rows groups ∧
      engine.run [.group (Fields.ofList (groupedFields on found)),
        .project (Fields.ofList (summaryFields on found))] context rows = summaries ∧
      List.Forall₂ (Summarizes engine number context on asked) groups summaries ∧
      arranged.Perm rows ∧
      List.Forall₂ (ShowsSummary engine on (asked.map (·.newColumn)) summaries) arranged
        (engine.run answers.restoration.stages context rows) := by
  obtain ⟨groups, grouped, run⟩ := answers.run_summary engine context ascending
  obtain ⟨parts, parted, restored⟩ := answers.restoration.run_stages_columns engine context
    answers.get?_restoration_identity answers.grouping ascending
  refine ⟨groups, _, (standings parts).map (·.row), grouped, run, ?_, ?_, ?_⟩
  · rw [List.forall₂_map_right_iff, List.forall₂_same]
    intro group member
    cases group with
    | nil => exact absurd rfl (grouped.occupied _ member)
    | cons head rest =>
      have sorted := ascending head (grouped.mem_rows member List.mem_cons_self)
      exact answers.summarizes tallies sorted rest
  · rw [map_row_standings]
    exact parted.perm
  · rw [restored, List.forall₂_map_left_iff, List.forall₂_map_right_iff, List.forall₂_same]
    exact fun standing member => answers.showsSummary_restored tallies ascending grouped parted member

end Answers

/-- A number of items. -/
def wholeNumber (count : Nat) : Value := .int (Int64.ofNat count)

/-- An engine for rows of small whole numbers that also counts different ones. -/
def counting : Engine where
  __ := Engine.whole
  operate operator arguments :=
    match operator, arguments with
    | "$size", [some (.list items)] => some (wholeNumber items.length)
    | operator, arguments => Engine.wholeOperate operator arguments
  accumulate operator arguments :=
    match operator with
    | "$addToSet" => some (.list (Engine.whole.distinct arguments.reduceOption))
    | "$first" => some (arguments.head?.join.getD .null)
    | "$last" => some (arguments.getLast?.join.getD .null)
    | operator => some ((Engine.wholeAccumulate operator arguments).getD .null)

theorem tallies_counting : counting.Tallies wholeNumber where
  ones count _ := by
    have numbers : (List.replicate count (some (Value.int 1))).filterMap
        (fun value => value.bind Engine.wholeOf) = List.replicate count 1 :=
      List.filterMap_replicate_of_some rfl
    change some (Value.int (Int64.ofInt (List.sum ((List.replicate count (some (Value.int 1))).filterMap
      fun value => value.bind Engine.wholeOf)))) = _
    rw [numbers, List.sum_replicate_int, mul_one]
    rfl
  set arguments :=
    have picked := Engine.whole.distinct_distinct arguments.reduceOption
    ⟨_, rfl, picked.among, picked.each, picked.apart⟩
  size items := rfl
  gathers function known arguments _ := by
    simp only [columnFunctions, List.mem_cons, List.not_mem_nil, or_false] at known
    rcases known with rfl | rfl | rfl | rfl | rfl | rfl <;> rfl

/-- Of two requests for one column, the number of different prices comes last. -/
def customerPrices : List Aggregation :=
  [⟨some ["price"], some ["result"], "sum"⟩, ⟨some ["price"], some ["orders"], "count"⟩,
    ⟨some ["price"], some ["result"], "count distinct"⟩]

end Staging

end StepQuery
