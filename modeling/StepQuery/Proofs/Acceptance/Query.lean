import StepQuery.Proofs.Acceptance.Operation
import StepQuery.Proofs.Query.Composition

/-!
Which pipelines give queries that a server accepts.  Every operation in them must do so, also in the
pipelines that are appended or joined; merging match stages makes no difference.
-/

namespace StepQuery

mutual

/-- Whether no operation of a pipeline has an empty list, those of the pipelines written in it
included. -/
def Pipeline.isFilled : List Step → Bool
  | [] => true
  | step :: rest => step.isFilled && Pipeline.isFilled rest

def Step.isFilled : Step → Bool
  | .domain _ | .append none => true
  | .append (some sources) => Reference.areFilled sources
  | .join right _ _ => right.isFilled
  | .transform operation => operation.isFilled

def Reference.areFilled : List Reference → Bool
  | [] => true
  | first :: rest => first.isFilled && Reference.areFilled rest

def Reference.isFilled : Reference → Bool
  | .named _ => true
  | .inline steps => Pipeline.isFilled steps

end

namespace Stage

/-- A conjunction of documents is accepted with them, and if there are any. -/
theorem isAccepted_conjunction {parts : List Term} (some : parts ≠ []) :
    (matching [("$and", .array parts)]).isAccepted =
      parts.all fun part => part.data.conforms .demand := by
  rw [isAccepted_matching, Condition.conforms_combination (.inl rfl), Term.conforms_array,
    List.isEmpty_eq_false_iff.mpr some]
  rfl

theorem areAccepted_merged {run : List Term} (documents : ∀ part ∈ run, part.isDocument) :
    areAccepted (merged run) = run.all fun part => part.data.conforms .demand := by
  unfold merged
  split
  next => simp
  next condition => simp
  next single notDocument =>
    cases single with
    | document condition => exact absurd rfl (notDocument condition)
    | _ => simp [Term.isDocument] at documents
  next nonempty _ _ => simp [isAccepted_conjunction nonempty]

theorem conforms_conjuncts (condition : List (String × Term)) :
    ((conjuncts condition).all fun part => part.data.conforms .demand) =
      (matching condition).isAccepted := by
  unfold conjuncts
  split
  next => rw [isAccepted_conjunction (List.cons_ne_nil _ _)]
  next => simp

/-- Merging match stages neither brings in nor removes what a server refuses. -/
theorem areAccepted_simplifyFrom {run : List Term} {stages : List Stage}
    (documents : ∀ part ∈ run, part.isDocument) (regular : ∀ stage ∈ stages, stage.Regular) :
    areAccepted (simplifyFrom run stages) =
      ((run.all fun part => part.data.conforms .demand) && areAccepted stages) := by
  induction stages generalizing run with
  | nil => rw [simplifyFrom, areAccepted_merged documents, areAccepted_nil, Bool.and_true]
  | cons stage rest inductionHypothesis =>
    obtain ⟨first, later⟩ := List.forall_mem_cons.mp regular
    by_cases isMatch : ∃ condition, stage = .matching condition
    · obtain ⟨condition, rfl⟩ := isMatch
      have joined : ∀ part ∈ run ++ conjuncts condition, part.isDocument :=
        List.forall_mem_append.mpr ⟨documents, isDocument_of_conjuncts first⟩
      rw [simplifyFrom, inductionHypothesis joined later, List.all_append, conforms_conjuncts,
        areAccepted_cons, Bool.and_assoc]
    · rw [simplifyFrom_cons isMatch, areAccepted_append, areAccepted_merged documents,
        areAccepted_cons, areAccepted_cons, inductionHypothesis (by simp) later, List.all_nil,
        Bool.true_and]

theorem areAccepted_simplify {stages : List Stage} (regular : ∀ stage ∈ stages, stage.Regular) :
    areAccepted (simplify stages) = areAccepted stages :=
  areAccepted_simplifyFrom nofun regular

end Stage

namespace Staging

/-- The stages of a step are accepted exactly if the step is filled. -/
def StepAccepted (step : Step) (stages : List Stage) : Prop :=
  Stage.areAccepted stages = step.isFilled

def QueryAccepted (steps : List Step) (found : Query) : Prop :=
  Stage.areAccepted found.stages = Pipeline.isFilled steps

theorem accepted_steps {steps : List Step} {parts : List (List Stage)}
    (each : List.Forall₂ StepAccepted steps parts) :
    Stage.areAccepted parts.flatten = Pipeline.isFilled steps := by
  induction each with
  | nil => rw [List.flatten_nil, Stage.areAccepted_nil, Pipeline.isFilled]
  | cons first _ inductionHypothesis =>
    rw [List.flatten_cons, Stage.areAccepted_append, first, inductionHypothesis, Pipeline.isFilled]

theorem accepted_source {reference : Reference} {found : Query}
    (source : FromSource QueryAccepted reference found) :
    Stage.areAccepted found.stages = reference.isFilled := by
  cases reference with
  | named name =>
    cases source
    rw [Stage.areAccepted_nil, Reference.isFilled]
  | inline steps => rw [Reference.isFilled, ← source]

theorem areAccepted_appendLookups {sources : List Reference} {queries : List Query}
    (each : List.Forall₂ (FromSource QueryAccepted) sources queries) (index : Nat) :
    Stage.areAccepted (appendLookups index queries) = Reference.areFilled sources := by
  induction each generalizing index with
  | nil => rw [appendLookups, Stage.areAccepted_nil, Reference.areFilled]
  | cons first _ inductionHypothesis =>
    rw [appendLookups, Stage.areAccepted_cons, inductionHypothesis, Reference.areFilled,
      ← accepted_source first, Stage.isAccepted]
    rfl

theorem areAccepted_append {sources : List Reference} {queries : List Query}
    (each : List.Forall₂ (FromSource QueryAccepted) sources queries) :
    Stage.areAccepted (append queries) = Reference.areFilled sources := by
  have gathered : (Stage.group
      (Fields.ofList [("_id", Term.null), (inlineField, pushedRows)])).isAccepted :=
    isAccepted_group_ofList (by simp [pushedRows, Value.hasBranches_of_ne])
  rw [append, Stage.areAccepted_append, Stage.areAccepted_cons, gathered,
    areAccepted_appendLookups each]
  simp [Stage.isAccepted]

theorem isAccepted_joinUnwind {type : String} {unwind : Stage}
    (found : joinUnwind type = .ok unwind) : unwind.isAccepted := by
  unfold joinUnwind at found
  split at found <;> cases found
  · rw [Stage.isAccepted_unwind, Term.isAccepted_column]
  all_goals
    rw [Stage.isAccepted_unwind, Term.isAccepted_fields (by simp)]
    simp [Value.hasBranches_of_ne, Value.conforms]

/-- A conjunction of equations demanded of a row is accepted if there are any. -/
theorem isAccepted_equations {equations : List Term} (some : equations ≠ [])
    (each : ∀ equation ∈ equations, equation.data.conforms .demand) :
    (Stage.matching [("$expr", Term.call "$and" equations)]).isAccepted := by
  have whole : (Term.call "$and" equations).data.conforms .demand := by
    rw [Term.call, Term.apply, Condition.conforms_combination (.inl rfl), Term.conforms_array,
      List.isEmpty_eq_false_iff.mpr some, List.all_eq_true.mpr each]
    rfl
  have under : Grammar.demand.takes "$expr" (Term.call "$and" equations).data := by
    simp [Grammar.demand, Value.hasParts, Value.hasBranches_of_ne]
  rw [Stage.isAccepted_matching, Term.data_entry, Value.conforms_entry, under, whole]
  rfl

theorem conforms_equation (first second : Value) :
    (Term.call "$eq" [.constant first, .constant second]).data.conforms .demand =
      (first.conforms .demand && second.conforms .demand) := by
  rw [Term.data_call, Value.conforms_entry]
  simp [Grammar.demand, Value.hasParts, Value.hasBranches_of_ne, Value.conforms,
    Value.conformEach_eq_all, Term.dataOf_eq]

theorem areAccepted_join {type : String} {pairs : List (String × String)} {other : Query}
    {stages : List Stage} (paired : pairs ≠ []) (returned : join type pairs other = .ok stages) :
    Stage.areAccepted stages = Stage.areAccepted other.stages := by
  obtain ⟨unwind, found, returned⟩ := Attempt.bind_eq_ok.mp returned
  cases returned
  have matched : (Stage.matching [("$expr", Term.call "$and" ((joinPairs pairs).map
      fun pair => Term.call "$eq" [Term.column pair.2.2, Term.text ("$$" ++ pair.1)]))]
        ).isAccepted := by
    apply isAccepted_equations
    · simpa [joinPairs] using paired
    · intro equation member
      obtain ⟨pair, _, rfl⟩ := List.mem_map.mp member
      exact (conforms_equation _ _).trans rfl
  have bound : ∀ field ∈ Fields.ofList ((joinPairs pairs).map fun pair =>
      (pair.1, Term.column pair.2.1)), field.2.isAccepted := by
    intro field member
    obtain ⟨pair, _, rfl⟩ := List.mem_map.mp (Fields.mem_ofList member)
    rfl
  rw [Stage.areAccepted_cons, Stage.isAccepted_lookup, Option.getD_some, List.all_eq_true.mpr bound,
    Stage.areAccepted_append, Stage.areAccepted_cons, matched, Stage.areAccepted_cons,
    isAccepted_joinUnwind found]
  simp [Stage.isAccepted]

theorem accepted_compositional (target : Target) :
    Compositional target QueryAccepted StepAccepted where
  assembled name rest parts each regular := by
    rw [QueryAccepted, Pipeline.isFilled, Step.isFilled, ← accepted_steps each]
    cases target.simplifies
    · rfl
    · exact Stage.areAccepted_simplify regular
  appended sources queries each := by
    rw [StepAccepted, areAccepted_append each]
    cases sources with
    | none => rw [Option.getD_none, Reference.areFilled, Step.isFilled]
    | some sources => rw [Option.getD_some, Step.isFilled]
  joined right type on other stages paired source returned := by
    rw [StepAccepted, areAccepted_join paired returned, accepted_source source, Step.isFilled]
  transformed operation stages returned := by
    rw [StepAccepted, areAccepted_operationStages returned, Step.isFilled]

end Staging

namespace Pipeline

/-- A server accepts the stages of a query exactly if the pipeline leaves no list empty that becomes a
stage or a combination, and brings in no empty combination or switch by a value. -/
theorem toQuery_accepted_iff {pipeline : Pipeline} {backend : String} {simplifies : Bool}
    {query : Query} (returned : pipeline.toQuery backend simplifies = .ok query) :
    (∀ stage ∈ query.stages, stage.isAccepted) ↔ isFilled pipeline := by
  obtain ⟨known, returned⟩ := query_of_toQuery returned
  have same := (Staging.accepted_compositional ⟨known, simplifies⟩).of_query pipeline query returned
  rw [Staging.QueryAccepted, Stage.areAccepted_eq_all] at same
  rw [← same, List.all_eq_true]

/-- Operations that name columns, in front of a join and inside it. -/
def columned : Pipeline :=
  [.domain "orders",
    .transform (.filter (.all [.simple ⟨"price", "gt", .int 10⟩, .simple ⟨"item", "notnull", .null⟩])),
    .transform (.fillna (some ["city"]) (.text "unknown")), .transform (.replace "state" none),
    .join (.inline [.domain "customers", .transform (.select (some ["id", "name"]))]) "left"
      (some [("customer", "id")]),
    .transform (.sort (some [⟨"date", "desc"⟩]))]

theorem toQuery_columned_accepted :
    ∃ query, columned.toQuery "" true = .ok query ∧ query.stages.length = 7 ∧
      ∀ stage ∈ query.stages, stage.isAccepted := by
  have compiles : ∃ query, columned.toQuery "" true = .ok query := ⟨_, rfl⟩
  obtain ⟨query, returned⟩ := compiles
  refine ⟨query, returned, ?_, (toQuery_accepted_iff returned).mpr (by decide)⟩
  cases returned
  rfl

/-- Operations on no columns at all, and an empty combination inside another one. -/
def columnless : Pipeline :=
  [.domain "orders", .transform (.fillna (some []) (.int 0)), .transform (.delete (some [])),
    .transform (.sort (some [])), .transform (.filter (.all [.any []]))]

theorem toQuery_columnless_refused :
    ∃ query, columnless.toQuery "" false = .ok query ∧ query.stages.length = 4 ∧
      ∀ stage ∈ query.stages, stage.isAccepted = false :=
  ⟨_, rfl, rfl, by decide⟩

end Pipeline

end StepQuery

