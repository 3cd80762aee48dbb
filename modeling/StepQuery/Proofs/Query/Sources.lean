import StepQuery.Compilation
import StepQuery.Proofs.Query.Composition
import StepQuery.Proofs.Reference.Closure
import StepQuery.Proofs.Template.Effect

/-!
The collections that a compiled query reads.  They are the names mentioned by the pipeline that is
left after resolving and rendering: resolving leaves only names that stand for no pipeline, rendering
changes no name, and making a query neither adds a name nor loses one.  Stages written by hand are not
looked into.
-/

namespace StepQuery

namespace Stage

mutual

/-- The collections that a stage looks at, at every depth. -/
def sources : Stage → List String
  | .lookup source _ stages _ => source :: sourcesOf stages
  | _ => []

def sourcesOf : List Stage → List String
  | [] => []
  | stage :: rest => sources stage ++ sourcesOf rest

end

@[simp]
theorem sourcesOf_nil : sourcesOf [] = [] := by rw [sourcesOf]

@[simp]
theorem sourcesOf_cons (stage : Stage) (rest : List Stage) :
    sourcesOf (stage :: rest) = stage.sources ++ sourcesOf rest := by rw [sourcesOf]

@[simp]
theorem sourcesOf_append (stages others : List Stage) :
    sourcesOf (stages ++ others) = sourcesOf stages ++ sourcesOf others := by
  induction stages with
  | nil => simp
  | cons stage rest inductionHypothesis => simp [inductionHypothesis]

@[simp]
theorem sources_lookup (source target : String) (bindings : Option (List (String × Term)))
    (stages : List Stage) :
    sources (.lookup source bindings stages target) = source :: sourcesOf stages := by rw [sources]

theorem Plain.sources_eq {stage : Stage} (plain : stage.Plain) : stage.sources = [] := by
  cases stage with
  | lookup => exact False.elim plain
  | _ => simp [sources]

theorem sourcesOf_plain {stages : List Stage} (plain : ∀ stage ∈ stages, stage.Plain) :
    sourcesOf stages = [] := by
  induction stages with
  | nil => simp
  | cons stage rest inductionHypothesis =>
    obtain ⟨first, later⟩ := List.forall_mem_cons.mp plain
    rw [sourcesOf_cons, first.sources_eq, inductionHypothesis later, List.append_nil]

theorem sourcesOf_merged (demands : List Term) : sourcesOf (merged demands) = [] := by
  unfold merged
  split <;> simp [sources]

theorem sourcesOf_simplifyFrom (demands : List Term) (stages : List Stage) :
    sourcesOf (simplifyFrom demands stages) = sourcesOf stages := by
  fun_induction simplifyFrom demands stages with
  | case1 demands => simp [sourcesOf_merged]
  | case2 demands condition rest inductionHypothesis => simp [inductionHypothesis, sources]
  | case3 demands stage rest notMatch inductionHypothesis =>
    simp [inductionHypothesis, sourcesOf_merged]

/-- Merging match stages looks at the same collections. -/
theorem sourcesOf_simplify (stages : List Stage) : sourcesOf (simplify stages) = sourcesOf stages :=
  sourcesOf_simplifyFrom [] stages

end Stage

/-- The collections that a query reads. -/
def Query.reads (query : Query) : List String := query.domain :: Stage.sourcesOf query.stages

namespace Staging

theorem sourcesOf_appendLookups (index : Nat) (queries : List Query) :
    Stage.sourcesOf (appendLookups index queries) = queries.flatMap Query.reads := by
  induction queries generalizing index with
  | nil => simp [appendLookups]
  | cons query rest inductionHypothesis => simp [appendLookups, inductionHypothesis, Query.reads]

theorem sourcesOf_append (queries : List Query) :
    Stage.sourcesOf (append queries) = queries.flatMap Query.reads := by
  simp [append, sourcesOf_appendLookups, Stage.sources]

theorem sourcesOf_join {type : String} {pairs : List (String × String)} {query : Query}
    {stages : List Stage} (returned : join type pairs query = .ok stages) :
    Stage.sourcesOf stages = query.reads := by
  obtain ⟨unwind, found, returned⟩ := Attempt.bind_eq_ok.mp returned
  cases returned
  simp [(crafted_joinUnwind found).1.sources_eq, Stage.sources, Query.reads]

/-- A query reads what a pipeline mentions, in the same order. -/
def ReadsMentioned (steps : List Step) (found : Query) : Prop := found.reads = Pipeline.mentions steps

theorem sourcesOf_flatten {steps : List Step} {parts : List (List Stage)}
    (each : List.Forall₂ (fun step stages => Stage.sourcesOf stages = step.mentions) steps parts) :
    Stage.sourcesOf parts.flatten = Pipeline.mentions steps := by
  induction each with
  | nil => rw [List.flatten_nil, Stage.sourcesOf_nil, Pipeline.mentions]
  | cons first _ inductionHypothesis =>
    rw [List.flatten_cons, Stage.sourcesOf_append, first, inductionHypothesis, Pipeline.mentions]

theorem FromSource.reads_eq {reference : Reference} {found : Query}
    (source : FromSource ReadsMentioned reference found) : found.reads = reference.mentions := by
  cases reference with
  | named name =>
    cases source
    rw [Query.reads, Stage.sourcesOf_nil, Reference.mentions]
  | inline steps =>
    rw [Reference.mentions]
    exact source

theorem reads_sources {references : List Reference} {queries : List Query}
    (each : List.Forall₂ (FromSource ReadsMentioned) references queries) :
    queries.flatMap Query.reads = Reference.mentionsOf references := by
  induction each with
  | nil => rw [Reference.mentionsOf, List.flatMap_nil]
  | cons first _ inductionHypothesis =>
    rw [List.flatMap_cons, Reference.mentionsOf, first.reads_eq, inductionHypothesis]

theorem compositional_reads (target : Target) : Compositional target ReadsMentioned
    fun step stages => Stage.sourcesOf stages = step.mentions where
  assembled name rest parts each _ := by
    rw [ReadsMentioned, Query.reads, Pipeline.mentions, Step.mentions, ← sourcesOf_flatten each]
    cases target.simplifies <;> simp [Stage.sourcesOf_simplify]
  appended sources queries each := by
    rw [sourcesOf_append, reads_sources each]
    cases sources with
    | none => rw [Step.mentions, Option.getD_none, Reference.mentionsOf]
    | some sources => rw [Step.mentions, Option.getD_some]
  joined right type on other stages _ source returned := by
    rw [sourcesOf_join returned, Step.mentions, source.reads_eq]
  transformed operation stages returned := by
    rw [Stage.sourcesOf_plain (plain_operationStages returned), Step.mentions]

end Staging

namespace Pipeline

theorem reads_toQuery {pipeline : Pipeline} {backend : String} {simplifies : Bool} {query : Query}
    (returned : pipeline.toQuery backend simplifies = .ok query) :
    query.reads = mentions pipeline := by
  obtain ⟨known, returned⟩ := query_of_toQuery returned
  exact (Staging.compositional_reads ⟨known, simplifies⟩).of_query pipeline query returned

end Pipeline

mutual

/-- Replacing values changes no name. -/
theorem mentions_of_eachReplaced : (written : List Step) → (values : List Value) →
    (found : List Step) → EachReplaced Step.Replaced written values found →
    Pipeline.mentions found = Pipeline.mentions written
  | [], _, _, .nil => rfl
  | first :: rest, _, _, .cons replaced later => by
    rw [Pipeline.mentions, Pipeline.mentions, Step.Replaced.mentions_eq first _ _ replaced,
      mentions_of_eachReplaced rest _ _ later]

theorem Step.Replaced.mentions_eq : (written : Step) → (values : List Value) → (found : Step) →
    written.Replaced values found → found.mentions = written.mentions
  | .domain _, _, _, .domain => rfl
  | .append none, _, _, .appendAbsent => by simp [Step.mentions, Reference.mentionsOf]
  | .append (some sources), _, _, .append replaced => by
    rw [Step.mentions, Step.mentions, mentionsOf_of_eachReplaced sources _ _ replaced]
  | .join right _ _, _, _, .join replaced => by
    rw [Step.mentions, Step.mentions, Reference.Replaced.mentions_eq right _ _ replaced]
  | .transform _, _, _, .transform _ => by rw [Step.mentions, Step.mentions]

theorem mentionsOf_of_eachReplaced : (written : List Reference) → (values : List Value) →
    (found : List Reference) → EachReplaced Reference.Replaced written values found →
    Reference.mentionsOf found = Reference.mentionsOf written
  | [], _, _, .nil => rfl
  | first :: rest, _, _, .cons replaced later => by
    rw [Reference.mentionsOf, Reference.mentionsOf,
      Reference.Replaced.mentions_eq first _ _ replaced,
      mentionsOf_of_eachReplaced rest _ _ later]

theorem Reference.Replaced.mentions_eq : (written : Reference) → (values : List Value) →
    (found : Reference) → written.Replaced values found → found.mentions = written.mentions
  | .named _, _, _, .named => rfl
  | .inline steps, _, _, .inline replaced => by
    rw [Reference.mentions, Reference.mentions, mentions_of_eachReplaced steps _ _ replaced]

end

namespace Compiler

open Interpolation (outcome)

variable {σ : Type}

theorem eq_ok_of_lift {α : Type} {place : Place} {attempt : Attempt α} {start reached : σ} {result : α}
    (returned : outcome (lift place attempt) start = (.ok result, reached)) : attempt = .ok result := by
  have same : (Attempt.inside place attempt, start) = (.ok result, reached) := returned
  exact Attempt.inside_eq_ok.mp (Prod.ext_iff.mp same).1

/-- A compiled query reads collections only: no name that stands for a pipeline is left, whatever the
renderer does. -/
theorem compile_reads_collections (compiler : Compiler (StateM σ)) (scope : Scope)
    (pipeline : Pipeline) {start reached : σ} {query : Query}
    (compiled : outcome (compiler.compile scope pipeline) start = (.ok query, reached)) :
    ∀ name ∈ query.reads, name ∉ Fields.names scope := by
  obtain ⟨resolved, _, resolves, compiled⟩ := Interpolation.outcome_bind_eq_ok.mp compiled
  obtain ⟨rendered, _, renders, compiled⟩ := Interpolation.outcome_bind_eq_ok.mp compiled
  have unfolds : Unfolds scope pipeline resolved :=
    Pipeline.unfolds_of_resolve (eq_ok_of_lift resolves)
  obtain ⟨values, replaced⟩ :=
    Pipeline.replaced_of_interpolate (Interpolation.outcome_inside_eq_ok.mp renders)
  have sameNames : Pipeline.mentions rendered = Pipeline.mentions resolved :=
    mentions_of_eachReplaced resolved values rendered replaced
  intro name read
  rw [Pipeline.reads_toQuery (eq_ok_of_lift compiled), sameNames] at read
  exact Fields.get?_eq_none_iff.mp (unfolds.get?_eq_none name read)

/-- A compiler whose renderer numbers the templates. -/
def numbering : Compiler (StateM Nat) where
  backend := ""
  simplifies := true
  render _ := do
    let count ← getModify (· + 1)
    return .int (Int64.ofNat count)

/-- A pipeline whose names stand for pipelines or for a collection. -/
def mixed : Pipeline :=
  [.domain "left", .transform (.text "kind" (.text "new")),
    .join (.named "right") "inner" (some [("id", "id")]), .append (some [.named "extra"])]

theorem compile_mixed_reads :
    ∃ query reached, outcome (numbering.compile Pipeline.diamond mixed) 0 = (.ok query, reached) ∧
      query.reads = ["raw", "raw", "raw", "raw", "extra"] ∧
      ∀ name ∈ query.reads, name ∉ Fields.names Pipeline.diamond := by
  let base : Pipeline := [.domain "raw", .transform (.lowercase "city")]
  have resolves : mixed.resolve Pipeline.diamond =
      .ok (base ++ [.transform (.text "kind" (.text "new")),
        .join (.inline (base ++ [.append (some [.inline base, .inline base])])) "inner"
          (some [("id", "id")]),
        .append (some [.inline [.domain "extra"]])]) := by cbv
  obtain ⟨query, reached, compiled, reads⟩ : ∃ query reached,
      outcome (numbering.compile Pipeline.diamond mixed) 0 = (.ok query, reached) ∧
        query.reads = ["raw", "raw", "raw", "raw", "extra"] := by
    rw [compile, resolves]
    exact ⟨_, _, rfl, rfl⟩
  exact ⟨query, reached, compiled, reads, compile_reads_collections numbering _ mixed compiled⟩

end Compiler

end StepQuery
