import StepQuery.Proofs.Execution.Rows

/-!
Appending the rows of other queries.  The rows at hand are gathered in one row, which lookups provide
with the rows of the queries; put together and taken out again they are the union.  But where there are
no rows at hand, there is no row to provide with anything, and the rows of the queries are lost.
-/

namespace StepQuery

namespace Staging

section Sources

theorem isFieldName_appendedField (index : Nat) : isFieldName (appendedField index) :=
  isFieldName_numbered (by decide) index

/-- The field of the rows at hand is none of those for the rows of queries. -/
theorem appendedField_ne_inlineField (index : Nat) : appendedField index ≠ inlineField := by
  intro same
  have characters : ("_vqbPipelineToAppend_" ++ Decimal.integerText index).toList =
      inlineField.toList := congrArg String.toList same
  rw [toList_numbered] at characters
  simp [inlineField] at characters

/-- Sources that each have a query have them together. -/
theorem sourceQueries_eq_ok {target : Target} {sources : List Reference} {queries : List Query}
    (accepted : List.Forall₂ (fun source query => sourceQuery target source = .ok query)
      sources queries) (index : Nat) : sourceQueries target index sources = .ok queries := by
  induction accepted generalizing index with
  | nil => rw [sourceQueries]
  | @cons source query _ _ first _ inductionHypothesis =>
    rw [sourceQueries, first, Attempt.inside_ok]
    exact Attempt.bind_eq_ok.mpr ⟨query, rfl, by rw [inductionHypothesis (index + 1)]; rfl⟩

theorem stepStages_append {target : Target} {sources : Option (List Reference)} {queries : List Query}
    (accepted : List.Forall₂ (fun source query => sourceQuery target source = .ok query)
      (sources.getD []) queries) : stepStages target (.append sources) = .ok (append queries) := by
  cases sources with
  | none =>
    cases accepted
    rw [stepStages]
  | some sources =>
    rw [Option.getD_some] at accepted
    rw [stepStages, sourceQueries_eq_ok accepted 0]
    rfl

end Sources

section Lookups

variable (engine : Engine) (context : Context)

/-- A row with the rows of queries in fields of their own. -/
def providedRow : (index : Nat) → List Query → Fields Value → Fields Value
  | _, [], row => row
  | index, query :: rest, row =>
    providedRow (index + 1) rest
      (row.set (appendedField index) (.list ((engine.rows query context).map .map)))

/-- Lookups without variables of their own see what is seen around them. -/
theorem run_appendLookups (index : Nat) (queries : List Query) (rows : List (Fields Value)) :
    engine.run (appendLookups index queries) context rows =
      rows.map (providedRow engine context index queries) := by
  induction queries generalizing index rows with
  | nil =>
    rw [appendLookups, Engine.run_nil]
    exact rows.map_id.symm
  | cons query rest inductionHypothesis =>
    rw [appendLookups, Engine.run_cons, Engine.run_lookup, inductionHypothesis, List.map_map]
    rfl

/-- Lookups leave the other fields as they are. -/
theorem get?_providedRow_of_ne {index : Nat} {queries : List Query} {name : String}
    (other : ∀ later, index ≤ later → appendedField later ≠ name) (row : Fields Value) :
    (providedRow engine context index queries row).get? name = row.get? name := by
  induction queries generalizing index row with
  | nil => rfl
  | cons query rest inductionHypothesis =>
    have later : ∀ later, index + 1 ≤ later → appendedField later ≠ name :=
      fun later after => other later (Nat.le_of_succ_le after)
    rw [providedRow, inductionHypothesis later, Fields.get?_set_of_ne (other index (le_refl index))]

theorem get?_providedRow {index : Nat} {queries : List Query} {entry : Query × Nat}
    (member : entry ∈ queries.zipIdx index) (row : Fields Value) :
    (providedRow engine context index queries row).get? (appendedField entry.2) =
      some (.list ((engine.rows entry.1 context).map .map)) := by
  induction queries generalizing index row with
  | nil => cases member
  | cons query rest inductionHypothesis =>
    rw [List.zipIdx_cons] at member
    rcases List.mem_cons.mp member with rfl | later
    · have others : ∀ later, index + 1 ≤ later → appendedField later ≠ appendedField index := by
        intro later after same
        exact absurd (numbered_injective _ same) (by omega)
      rw [providedRow, get?_providedRow_of_ne engine context others, Fields.get?_set_self]
    · exact inductionHypothesis later _

end Lookups

section Union

variable (engine : Engine) (context : Context)

/-- The columns of a provided row that are put together, with the rows that they hold. -/
def unionEntries (queries : List Query) (rows : List (Fields Value)) :
    List (String × List (Fields Value)) :=
  (inlineField, rows) ::
    queries.zipIdx.map fun entry => (appendedField entry.2, engine.rows entry.1 context)

theorem columns_unionEntries (queries : List Query) (rows : List (Fields Value)) :
    (unionEntries engine context queries rows).map (fun entry => Term.column entry.1) =
      Term.column inlineField ::
        (List.range queries.length).map fun index => Term.column (appendedField index) := by
  have numbers : List.range queries.length = queries.zipIdx.map (·.2) := by
    rw [List.zipIdx_map_snd, List.range_eq_range']
  rw [unionEntries, List.map_cons, List.map_map, numbers, List.map_map]
  rfl

theorem flatMap_unionEntries (queries : List Query) (rows : List (Fields Value)) :
    (unionEntries engine context queries rows).flatMap (·.2) =
      rows ++ queries.flatMap fun query => engine.rows query context := by
  have each : queries.zipIdx.flatMap (fun entry => engine.rows entry.1 context) =
      queries.flatMap fun query => engine.rows query context := by
    conv_rhs => rw [← List.zipIdx_map_fst 0 queries, List.flatMap_map]
  rw [unionEntries, List.flatMap_cons, List.flatMap_map, each]

/-- A row that holds the rows at hand and is provided with those of the queries holds the union. -/
theorem read_union {queries : List Query} {rows : List (Fields Value)} {gathered : Fields Value}
    (holds : gathered.get? inlineField = some (.list (rows.map .map))) :
    engine.read context (providedRow engine context 0 queries gathered)
      (Term.call "$concatArrays" (Term.column inlineField ::
        (List.range queries.length).map fun index => Term.column (appendedField index))) =
      some (.list ((rows ++ queries.flatMap fun query => engine.rows query context).map .map)) := by
  rw [← columns_unionEntries engine context queries rows, ← flatMap_unionEntries]
  apply Engine.read_concatArrays
  intro entry member
  rcases List.mem_cons.mp member with rfl | appended
  · have others : ∀ later, 0 ≤ later → appendedField later ≠ inlineField :=
      fun later _ => appendedField_ne_inlineField later
    have field : isFieldName inlineField := by decide
    exact ⟨field, (get?_providedRow_of_ne engine context others gathered).trans holds⟩
  · obtain ⟨numbered, within, rfl⟩ := List.mem_map.mp appended
    exact ⟨isFieldName_appendedField _, get?_providedRow engine context within gathered⟩

/-- Rows that hold the rows at hand, once provided, give the union each. -/
theorem run_provided (queries : List Query) (rows : List (Fields Value))
    {gathered : List (Fields Value)}
    (holds : ∀ row ∈ gathered, row.get? inlineField = some (.list (rows.map .map))) :
    engine.run (appendLookups 0 queries ++
      [.project [(unionField, Term.call "$concatArrays" (Term.column inlineField ::
        (List.range queries.length).map fun index => Term.column (appendedField index)))],
        .unwind (Term.column unionField), .replaceRoot (Term.column unionField)]) context gathered =
      gathered.flatMap fun _ => rows ++ queries.flatMap fun query => engine.rows query context := by
  have field : isFieldName unionField := by decide
  rw [Engine.run_append, run_appendLookups, Engine.run_cons,
    Engine.run_project_single engine context field, List.map_map,
    Engine.run_restored field fun _ => rows ++ queries.flatMap fun query => engine.rows query context]
  intro row member
  exact (Engine.get?_project_computed field rfl _).trans (read_union engine context (holds row member))

/-- What the stages of an append make of rows. -/
theorem run_append (queries : List Query) (rows : List (Fields Value)) :
    engine.run (append queries) context rows =
      if rows = [] then []
      else rows ++ queries.flatMap fun query => engine.rows query context := by
  have plain : ∀ field ∈ Fields.ofList [("_id", Term.null), (inlineField, pushedRows)],
      isFieldName field.1 := by decide
  rw [append, List.cons_append, Engine.run_cons, Engine.run_group_together plain rfl]
  split
  next => exact run_provided engine context queries [] nofun
  next =>
    rw [run_provided engine context queries rows (List.forall_mem_singleton.mpr
      (engine.get?_groupRow_pushed context (by decide) rfl _)), List.flatMap_singleton]

end Union

/-- The stages of an append to rows at hand give these rows and then those of the queries, each in
their order.  Without rows at hand they give none, which is the union only if the queries have no rows
either. -/
theorem append_rows_iff (target : Target) {sources : Option (List Reference)} {queries : List Query}
    (accepted : List.Forall₂ (fun source query => sourceQuery target source = .ok query)
      (sources.getD []) queries) :
    ∃ stages, stepStages target (.append sources) = .ok stages ∧
      ∀ (engine : Engine) (context : Context) (rows : List (Fields Value)),
        (rows ≠ [] → engine.run stages context rows =
          rows ++ queries.flatMap fun query => engine.rows query context) ∧
        engine.run stages context [] = [] ∧
        (engine.run stages context rows =
            rows ++ (queries.flatMap fun query => engine.rows query context) ↔
          rows ≠ [] ∨ ∀ query ∈ queries, engine.rows query context = []) := by
  refine ⟨append queries, stepStages_append accepted, fun engine context rows => ⟨?_, ?_, ?_⟩⟩
  · intro given
    rw [run_append, if_neg given]
  · rw [run_append, if_pos rfl]
  · rw [run_append]
    by_cases empty : rows = []
    · rw [if_pos empty, empty, List.nil_append, eq_comm, List.flatMap_eq_nil_iff]
      exact ⟨Or.inr, fun either => either.resolve_left fun given => given rfl⟩
    · rw [if_neg empty]
      exact ⟨fun _ => .inl empty, fun _ => rfl⟩

/-- Customers in one collection, and orders in all others. -/
def market : Context where
  collections source :=
    if source = "customers" then [[("city", .int 3), ("id", .int 1)], [("city", .int 4), ("id", .int 2)]]
    else [[("customer", .int 1), ("price", .int 5)]]
  bound := []

/-- An order that is in no collection. -/
def placed : Fields Value := [("customer", .int 2), ("price", .int 9)]

theorem append_rows_customers : ∃ stages,
    stepStages ⟨.usual, false⟩ (.append (some [.named "customers", .inline [.domain "orders"]])) =
        .ok stages ∧
      Engine.whole.run stages market [placed] =
        [placed, [("city", .int 3), ("id", .int 1)], [("city", .int 4), ("id", .int 2)],
          [("customer", .int 1), ("price", .int 5)]] ∧
      Engine.whole.run stages market [] = [] := by
  have accepted : List.Forall₂ (fun source query => sourceQuery ⟨.usual, false⟩ source = .ok query)
      ((some [.named "customers", .inline [.domain "orders"]]).getD [])
      [⟨"customers", []⟩, ⟨"orders", []⟩] := .cons rfl (.cons rfl .nil)
  obtain ⟨stages, staged, each⟩ := append_rows_iff ⟨.usual, false⟩ accepted
  obtain ⟨given, none, _⟩ := each Engine.whole market [placed]
  exact ⟨stages, staged, given (List.cons_ne_nil _ _), none⟩

/-- Appending is not always the union: the rows of a collection are lost where there is no row that
they could be appended to. -/
theorem not_append_union :
    ¬∀ (target : Target) (sources : List Reference) (queries : List Query) (stages : List Stage)
      (engine : Engine) (context : Context) (rows : List (Fields Value)),
      List.Forall₂ (fun source query => sourceQuery target source = .ok query) sources queries →
      stepStages target (.append (some sources)) = .ok stages →
        engine.run stages context rows =
          rows ++ queries.flatMap fun query => engine.rows query context := by
  intro union
  let archive : Query := ⟨"archive", []⟩
  have accepted : List.Forall₂ (fun source query => sourceQuery ⟨.usual, false⟩ source = .ok query)
      [.named "archive"] [archive] := .cons rfl .nil
  have together := union ⟨.usual, false⟩ [.named "archive"] [archive] (append [archive]) Engine.whole
    market [] accepted rfl
  rw [run_append, if_pos rfl] at together
  cases together

end Staging

end StepQuery
