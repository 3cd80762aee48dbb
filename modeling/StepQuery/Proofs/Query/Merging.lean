import Mathlib.Data.List.Forall2
import StepQuery.Proofs.Query.Stages

/-!
Merging match stages keeps the meaning of a query.  A meaning says what one stage makes of rows; all
that is asked of it is that a match keeps the rows satisfying its document, that a conjunction is
satisfied by what satisfies its parts, and that a lookup sees of its own stages no more than the rows
they yield.  Queries are merged at every depth, so the stages of a lookup differ as well as the
stages around it.
-/

namespace StepQuery

universe u v

namespace Stage

variable {Row : Type u} {Context : Type v}

/-- What stages make of rows one after the other, given what each one does. -/
def runAll (run : Stage → Context → List Row → List Row) :
    List Stage → Context → List Row → List Row
  | [], _, rows => rows
  | stage :: rest, context, rows => runAll run rest context (run stage context rows)

/-- A meaning of stages.  The context is what a stage can see besides the rows it is given: the other
collections, and the variables bound by a lookup around it. -/
structure Meaning (Row : Type u) (Context : Type v) where
  satisfies : Context → Term → Row → Bool
  run : Stage → Context → List Row → List Row
  run_matching : ∀ condition context rows,
    run (.matching condition) context rows =
      rows.filter fun row => satisfies context (.document condition) row
  satisfies_and : ∀ parts context row,
    satisfies context (.document [("$and", .array parts)]) row =
      parts.all fun part => satisfies context part row
  run_lookup : ∀ source bindings target stages others,
    (∀ context rows, runAll run stages context rows = runAll run others context rows) →
    ∀ context rows, run (.lookup source bindings stages target) context rows =
      run (.lookup source bindings others target) context rows

/-- Two lists of stages yield the same rows, whatever stages mean. -/
def SameRows (stages others : List Stage) : Prop :=
  ∀ (Row : Type u) (Context : Type v) (meaning : Meaning Row Context) context rows,
    runAll meaning.run stages context rows = runAll meaning.run others context rows

theorem runAll_append (run : Stage → Context → List Row → List Row) (stages others : List Stage)
    (context : Context) (rows : List Row) :
    runAll run (stages ++ others) context rows =
      runAll run others context (runAll run stages context rows) := by
  induction stages generalizing rows with
  | nil => rfl
  | cons stage rest inductionHypothesis => exact inductionHypothesis (run stage context rows)

section Merging

variable (meaning : Meaning Row Context)

/-- The rows that satisfy every term of a list. -/
def Meaning.kept (demands : List Term) (context : Context) (rows : List Row) : List Row :=
  rows.filter fun row => demands.all fun part => meaning.satisfies context part row

@[simp]
theorem kept_nil (context : Context) (rows : List Row) : meaning.kept [] context rows = rows := by
  simp [Meaning.kept]

theorem kept_append (demands others : List Term) (context : Context) (rows : List Row) :
    meaning.kept (demands ++ others) context rows =
      meaning.kept others context (meaning.kept demands context rows) := by
  simp only [Meaning.kept, List.all_append, List.filter_filter]
  exact congrArg (List.filter · rows) (funext fun row => Bool.and_comm _ _)

theorem kept_conjuncts (condition : List (String × Term)) (context : Context) (rows : List Row) :
    meaning.kept (conjuncts condition) context rows =
      meaning.run (.matching condition) context rows := by
  rw [meaning.run_matching, Meaning.kept]
  unfold conjuncts
  split
  next => simp only [meaning.satisfies_and]
  next => simp

theorem runAll_merged {demands : List Term} (documents : ∀ part ∈ demands, part.isDocument)
    (context : Context) (rows : List Row) :
    runAll meaning.run (merged demands) context rows = meaning.kept demands context rows := by
  unfold merged
  split
  next => simp [runAll]
  next condition => simp [runAll, meaning.run_matching, Meaning.kept]
  next single notDocument =>
    -- A part on its own that is no document would have to be written by hand.
    cases single with
    | document condition => exact absurd rfl (notDocument condition)
    | _ => simp [Term.isDocument] at documents
  next => simp [runAll, meaning.run_matching, meaning.satisfies_and, Meaning.kept]

/-- The conjuncts met since the last other stage have been demanded already when the merged stage
stands behind them. -/
theorem runAll_simplifyFrom {demands : List Term} (documents : ∀ part ∈ demands, part.isDocument)
    {stages : List Stage} (regular : ∀ stage ∈ stages, stage.Regular)
    (context : Context) (rows : List Row) :
    runAll meaning.run (simplifyFrom demands stages) context rows =
      runAll meaning.run stages context (meaning.kept demands context rows) := by
  induction stages generalizing demands rows with
  | nil =>
    rw [simplifyFrom, runAll_merged meaning documents]
    rfl
  | cons stage rest inductionHypothesis =>
    obtain ⟨first, later⟩ := List.forall_mem_cons.mp regular
    by_cases isMatch : ∃ condition, stage = .matching condition
    · obtain ⟨condition, rfl⟩ := isMatch
      have documents' : ∀ part ∈ demands ++ conjuncts condition, part.isDocument :=
        List.forall_mem_append.mpr ⟨documents, isDocument_of_conjuncts first⟩
      rw [simplifyFrom, inductionHypothesis documents' later, kept_append, kept_conjuncts]
      rfl
    · rw [simplifyFrom_cons isMatch, runAll_append, runAll_merged meaning documents, runAll,
        inductionHypothesis (by simp) later, kept_nil]
      rfl

end Merging

namespace SameRows

theorem refl (stages : List Stage) : SameRows.{u, v} stages stages :=
  fun _ _ _ _ _ => rfl

theorem append {stages others stages' others' : List Stage}
    (first : SameRows.{u, v} stages stages') (second : SameRows.{u, v} others others') :
    SameRows.{u, v} (stages ++ others) (stages' ++ others') := by
  intro Row Context meaning context rows
  rw [runAll_append, runAll_append, first Row Context meaning, second Row Context meaning]

theorem lookup {stages others : List Stage} (same : SameRows.{u, v} stages others)
    (source : String) (bindings : Option (List (String × Term))) (target : String) :
    SameRows.{u, v} [.lookup source bindings stages target]
      [.lookup source bindings others target] :=
  fun Row Context meaning context rows =>
    meaning.run_lookup source bindings target stages others (same Row Context meaning) context rows

theorem simplify {stages others : List Stage} (regular : ∀ stage ∈ stages, stage.Regular)
    (same : SameRows.{u, v} stages others) : SameRows.{u, v} (simplify stages) others := by
  intro Row Context meaning context rows
  rw [Stage.simplify, runAll_simplifyFrom meaning (by simp) regular, kept_nil]
  exact same Row Context meaning context rows

end SameRows

section Parts

variable (holds : Context → Term → Row → Bool)
  (attach : String → Option (List (String × Term)) → String →
    (Context → List Row → List Row) → Context → List Row → List Row)
  (others : Stage → Context → List Row → List Row)

mutual

/-- Whether a row satisfies a term, given how terms that are no conjunction are decided. -/
def satisfiesBy (context : Context) : Term → Row → Bool
  | .document [("$and", .array parts)], row => satisfiesAllBy context parts row
  | term, row => holds context term row

def satisfiesAllBy (context : Context) : List Term → Row → Bool
  | [], _ => true
  | part :: rest, row => satisfiesBy context part row && satisfiesAllBy context rest row

end

mutual

/-- What a stage does, given how rows found elsewhere are attached and what stages of other kinds
do. -/
def runBy : Stage → Context → List Row → List Row
  | .matching condition => fun context rows =>
    rows.filter fun row => satisfiesBy holds context (.document condition) row
  | .lookup source bindings stages target => attach source bindings target (runAllBy stages)
  | stage => others stage

def runAllBy : List Stage → Context → List Row → List Row
  | [] => fun _ rows => rows
  | stage :: rest => fun context rows => runAllBy rest context (runBy stage context rows)

end

theorem satisfiesAllBy_eq (context : Context) (parts : List Term) (row : Row) :
    satisfiesAllBy holds context parts row =
      parts.all fun part => satisfiesBy holds context part row := by
  induction parts with
  | nil => rw [satisfiesAllBy, List.all_nil]
  | cons part rest inductionHypothesis =>
    rw [satisfiesAllBy, List.all_cons, inductionHypothesis]

theorem runAllBy_eq (stages : List Stage) :
    runAllBy holds attach others stages = runAll (runBy holds attach others) stages := by
  induction stages with
  | nil =>
    rw [runAllBy]
    rfl
  | cons stage rest inductionHypothesis =>
    rw [runAllBy, inductionHypothesis]
    rfl

/-- Meanings abound: whatever the parts, they make one. -/
def Meaning.ofParts : Meaning Row Context where
  satisfies := satisfiesBy holds
  run := runBy holds attach others
  run_matching condition context rows := by rw [runBy]
  satisfies_and parts context row := by rw [satisfiesBy, satisfiesAllBy_eq]
  run_lookup source bindings target stages others' same context rows := by
    rw [runBy, runBy, runAllBy_eq, runAllBy_eq, funext fun context => funext (same context)]

end Parts

end Stage

namespace Staging

open Attempt (Agree agree_bind agree_inside agree_self)

/-- Two lists of stages of which the first can be merged and yields the rows of the second. -/
def Mergeable (stages others : List Stage) : Prop :=
  (∀ stage ∈ stages, stage.Regular) ∧ Stage.SameRows.{u, v} stages others

/-- Two queries on one collection that yield the same rows. -/
def SameQuery (query other : Query) : Prop :=
  query.domain = other.domain ∧ Stage.SameRows.{u, v} query.stages other.stages

theorem Mergeable.append {stages others stages' others' : List Stage}
    (first : Mergeable.{u, v} stages stages') (second : Mergeable.{u, v} others others') :
    Mergeable.{u, v} (stages ++ others) (stages' ++ others') := by
  refine ⟨fun stage within => ?_, first.2.append second.2⟩
  rcases List.mem_append.mp within with earlier | later
  · exact first.1 stage earlier
  · exact second.1 stage later

theorem mergeable_of_plain {stages : List Stage} (plain : ∀ stage ∈ stages, stage.Plain) :
    Mergeable.{u, v} stages stages :=
  ⟨fun stage within => (plain stage within).regular, .refl stages⟩

theorem mergeable_lookup {stages others : List Stage} (same : Stage.SameRows.{u, v} stages others)
    (source : String) (bindings : Option (List (String × Term))) (target : String) :
    Mergeable.{u, v} [.lookup source bindings stages target]
      [.lookup source bindings others target] :=
  ⟨fun _ within => List.mem_singleton.mp within ▸ trivial, same.lookup source bindings target⟩

theorem mergeable_appendLookups {queries others : List Query}
    (same : List.Forall₂ SameQuery.{u, v} queries others) (index : Nat) :
    Mergeable.{u, v} (appendLookups index queries) (appendLookups index others) := by
  induction same generalizing index with
  | nil => exact mergeable_of_plain nofun
  | @cons query other rest rest' first later inductionHypothesis =>
    rw [appendLookups, appendLookups, ← first.1]
    exact (mergeable_lookup first.2 query.domain none (appendedField index)).append
      (inductionHypothesis (index + 1))

theorem mergeable_append {queries others : List Query}
    (same : List.Forall₂ SameQuery.{u, v} queries others) :
    Mergeable.{u, v} (append queries) (append others) := by
  unfold append
  rw [← same.length_eq]
  have collected : Mergeable.{u, v}
      [.group (Fields.ofList [("_id", Term.null), (inlineField, pushedRows)])]
      [.group (Fields.ofList [("_id", Term.null), (inlineField, pushedRows)])] :=
    mergeable_of_plain (by simp)
  exact collected.append ((mergeable_appendLookups same 0).append (mergeable_of_plain (by simp)))

theorem agree_join {query other : Query} (same : SameQuery.{u, v} query other) (type : String)
    (pairs : List (String × String)) :
    Agree Mergeable.{u, v} (join type pairs query) (join type pairs other) := by
  have unwinds : Agree (fun stage stage' => stage = stage' ∧ stage.Plain) (joinUnwind type)
      (joinUnwind type) := by
    exact agree_self fun unwind found => ⟨rfl, (crafted_joinUnwind found).1⟩
  unfold join
  refine agree_bind unwinds ?_
  rintro unwind _ ⟨rfl, plain⟩
  rw [← same.1]
  exact (mergeable_lookup (same.2.append (.refl _)) _ _ _).append
    (mergeable_of_plain (by simpa using plain))

mutual

/-- With and without merging, a pipeline gives queries that yield the same rows, or the same
failure. -/
theorem agree_query (backend : Backend) : (steps : List Step) →
    Agree SameQuery.{u, v} (query ⟨backend, true⟩ steps) (query ⟨backend, false⟩ steps)
  | [] => rfl
  | .domain name :: rest => by
    rw [query, query]
    refine agree_bind (agree_stepsStages backend 1 rest) fun stages others mergeable => ?_
    exact ⟨rfl, mergeable.2.simplify mergeable.1⟩
  | .append _ :: _ | .join .. :: _ | .transform _ :: _ => by
    rw [query, query] <;> first | exact rfl | nofun

theorem agree_stepsStages (backend : Backend) : (index : Nat) → (steps : List Step) →
    Agree Mergeable.{u, v} (stepsStages ⟨backend, true⟩ index steps)
      (stepsStages ⟨backend, false⟩ index steps)
  | _, [] => mergeable_of_plain nofun
  | index, first :: rest => by
    rw [stepsStages, stepsStages]
    refine agree_bind (agree_inside _ (agree_stepStages backend first)) fun _ _ found => ?_
    refine agree_bind (agree_stepsStages backend (index + 1) rest) fun _ _ others => ?_
    exact found.append others

theorem agree_stepStages (backend : Backend) : (step : Step) →
    Agree Mergeable.{u, v} (stepStages ⟨backend, true⟩ step) (stepStages ⟨backend, false⟩ step)
  | .domain name => rfl
  | .append none => mergeable_append .nil
  | .append (some sources) => by
    rw [stepStages, stepStages]
    refine agree_bind (agree_sourceQueries backend 0 sources) fun _ _ same => ?_
    exact mergeable_append same
  | .join right type on => by
    rw [stepStages, stepStages]
    cases on.getD [] with
    | nil => exact rfl
    | cons pair pairs =>
      refine agree_bind (agree_inside _ (agree_sourceQuery backend right)) fun _ _ same => ?_
      exact agree_join same type (pair :: pairs)
  | .transform operation => by
    rw [stepStages, stepStages]
    exact agree_self fun stages returned => mergeable_of_plain (plain_operationStages returned)

theorem agree_sourceQueries (backend : Backend) : (index : Nat) → (sources : List Reference) →
    Agree (List.Forall₂ SameQuery.{u, v}) (sourceQueries ⟨backend, true⟩ index sources)
      (sourceQueries ⟨backend, false⟩ index sources)
  | _, [] => List.Forall₂.nil
  | index, first :: rest => by
    rw [sourceQueries, sourceQueries]
    refine agree_bind (agree_inside _ (agree_sourceQuery backend first)) fun _ _ found => ?_
    refine agree_bind (agree_sourceQueries backend (index + 1) rest) fun _ _ others => ?_
    exact List.Forall₂.cons found others

theorem agree_sourceQuery (backend : Backend) : (reference : Reference) →
    Agree SameQuery.{u, v} (sourceQuery ⟨backend, true⟩ reference)
      (sourceQuery ⟨backend, false⟩ reference)
  | .named name => ⟨rfl, .refl []⟩
  | .inline steps => by
    rw [sourceQuery, sourceQuery]
    exact agree_query backend steps

end

end Staging

namespace Pipeline

theorem agree_toQuery (pipeline : Pipeline) (backend : String) :
    Attempt.Agree Staging.SameQuery.{u, v} (pipeline.toQuery backend true)
      (pipeline.toQuery backend false) := by
  unfold toQuery
  cases if backend == "" then some Backend.usual else Backend.ofName? backend with
  | none => exact rfl
  | some known => exact Staging.agree_query known pipeline

/-- Merging match stages changes neither whether a pipeline has a query, nor how it fails, nor the
collection, nor the rows, whatever stages mean. -/
theorem toQuery_simplified_rows (pipeline : Pipeline) (backend : String) :
    match pipeline.toQuery backend true, pipeline.toQuery backend false with
    | .ok merged, .ok plain =>
      merged.domain = plain.domain ∧
        ∀ (Row : Type u) (Context : Type v) (meaning : Stage.Meaning Row Context) context rows,
          Stage.runAll meaning.run merged.stages context rows =
            Stage.runAll meaning.run plain.stages context rows
    | .error failure, .error failure' => failure = failure'
    | _, _ => False := by
  have agree := agree_toQuery.{u, v} pipeline backend
  cases merged : pipeline.toQuery backend true <;>
    cases plain : pipeline.toQuery backend false <;> rw [merged, plain] at agree
  · exact agree
  · exact agree
  · exact agree
  · exact agree

/-- A meaning in which a document is satisfied by the rows that have the columns it names, and a
lookup stores all rows found in the collection under its target. -/
def presence : Stage.Meaning (Fields Value) (String → List (Fields Value)) :=
  .ofParts
    (fun _ term row =>
      match term with
      | .document fields => fields.all fun field => Fields.has row field.1
      | _ => false)
    (fun source _ target found collections rows =>
      rows.map fun row =>
        Fields.set target (.list ((found collections (collections source)).map .map)) row)
    (fun _ _ rows => rows)

/-- The rows that have a column. -/
def having (column : String) : Condition := .simple ⟨column, "notnull", .null⟩

/-- Runs of filters, one of them a conjunction, in front of a join and inside it. -/
def filtered : Pipeline :=
  [.domain "orders", .transform (.filter (having "date")),
    .transform (.filter (.all [having "item", having "price"])),
    .join (.inline [.domain "customers", .transform (.filter (having "name")),
      .transform (.filter (having "city"))]) "inner" (some [("customer", "id")])]

theorem toQuery_filtered_rows :
    ∃ merged plain, filtered.toQuery "" true = .ok merged ∧ filtered.toQuery "" false = .ok plain ∧
      merged.stages.length = 5 ∧ plain.stages.length = 6 ∧
      ∀ collections rows, Stage.runAll presence.run merged.stages collections rows =
        Stage.runAll presence.run plain.stages collections rows :=
  ⟨_, _, rfl, rfl, rfl, rfl, (toQuery_simplified_rows filtered "").2 _ _ presence⟩

end Pipeline

end StepQuery
