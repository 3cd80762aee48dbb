import StepQuery.Proofs.Attempt
import StepQuery.Query.OfPipeline

/-!
Which pipelines a version of the database can serve.  The features that a pipeline uses are read off
its steps, at every depth of the pipelines written in place.  A version gives a query exactly where
the newest one does and supports every feature used, and the query is the same.
-/

namespace StepQuery

/-- Whether the operator compares with a pattern. -/
def Comparison.isPattern (comparison : Comparison) : Bool :=
  comparison.operator == "matches" || comparison.operator == "notmatches"

/-- Whether a condition compares with a pattern anywhere. -/
def Condition.hasPattern (condition : Condition) : Bool :=
  condition.comparisons.any Comparison.isPattern

/-- The conditions along a chain of else-ifs. -/
def Branch.tests : Branch → List Condition
  | .last test _ _ => [test]
  | .chain test _ next => test :: next.tests

/-- The features that an operation uses.  A pattern in a filter needs none. -/
def Operation.uses : Operation → List Feature
  | .convert .. => [.convert]
  | .trim _ => [.trim]
  | .toDate _ format => if format == "" then [] else [.dateFormat]
  | .ifThenElse _ branch => if branch.tests.any Condition.hasPattern then [.regexMatch] else []
  | _ => []

mutual

/-- The features that a pipeline uses, those of the pipelines written in it included. -/
def Pipeline.uses : List Step → List Feature
  | [] => []
  | step :: rest => step.uses ++ Pipeline.uses rest

def Step.uses : Step → List Feature
  | .domain _ | .append none => []
  | .append (some sources) => Reference.usesOf sources
  | .join right _ _ => right.uses
  | .transform operation => operation.uses

def Reference.usesOf : List Reference → List Feature
  | [] => []
  | first :: rest => first.uses ++ Reference.usesOf rest

def Reference.uses : Reference → List Feature
  | .named _ => []
  | .inline steps => Pipeline.uses steps

end

namespace Backend

/-- The version supports every feature of a list. -/
def Serves (backend : Backend) (features : List Feature) : Prop :=
  ∀ feature ∈ features, backend.supports feature

variable {backend : Backend}

@[simp]
theorem serves_nil : backend.Serves [] := nofun

@[simp]
theorem serves_singleton {feature : Feature} :
    backend.Serves [feature] ↔ backend.supports feature = true := by simp [Serves]

theorem serves_append {features others : List Feature} :
    backend.Serves (features ++ others) ↔ backend.Serves features ∧ backend.Serves others :=
  List.forall_mem_append

theorem ofName?_name (backend : Backend) : ofName? backend.name = some backend := by
  cases backend <;> rfl

theorem gated_require (feature : Feature) (what : String) :
    Attempt.Gated (backend.supports feature = true) (backend.require feature what)
      (require .mongo50 feature what) := by
  intro result
  have newest : require .mongo50 feature what = .ok result := rfl
  rw [newest, require]
  by_cases supported : backend.supports feature
  · simp [supported]
  · simp [supported]

end Backend

open Attempt (Gated gated_self gated_congr gated_inside gated_bind gated_bind_same)

namespace Condition

variable (withPatterns : Bool)

theorem gated_comparisonExpression (comparison : Comparison) :
    Gated (comparison.isPattern = true → withPatterns = true)
      (comparisonExpression withPatterns comparison) (comparisonExpression true comparison) := by
  unfold comparisonExpression
  dsimp only
  split
  case h_3 asked =>
    intro term
    cases withPatterns <;> simp [Comparison.isPattern, asked]
  case h_4 asked =>
    intro term
    cases withPatterns <;> simp [Comparison.isPattern, asked]
  all_goals
    refine gated_self ?_ _
    simp_all [Comparison.isPattern]

mutual

/-- Without patterns an expression is had of the conditions that compare with none. -/
theorem gated_toExpression : (condition : Condition) →
    Gated (condition.hasPattern = true → withPatterns = true)
      (condition.toExpression withPatterns) (condition.toExpression true)
  | .absent => by
    rw [toExpression, toExpression]
    exact gated_self (by simp [hasPattern, comparisons]) _
  | .simple comparison => by
    rw [toExpression, toExpression]
    refine gated_congr ?_ (gated_comparisonExpression withPatterns comparison)
    simp [hasPattern, comparisons]
  | .all children => by
    rw [toExpression, toExpression, hasPattern, comparisons]
    exact gated_bind_same (gated_toExpressions children) _
  | .any children => by
    rw [toExpression, toExpression, hasPattern, comparisons]
    exact gated_bind_same (gated_toExpressions children) _

theorem gated_toExpressions : (children : List Condition) →
    Gated ((comparisonsOf children).any Comparison.isPattern = true → withPatterns = true)
      (toExpressions withPatterns children) (toExpressions true children)
  | [] => by
    rw [toExpressions, toExpressions]
    exact gated_self (by simp [comparisonsOf]) _
  | child :: rest => by
    rw [toExpressions, toExpressions, comparisonsOf]
    refine gated_congr ?_ (gated_bind (gated_toExpression child) fun first =>
      gated_bind_same (gated_toExpressions rest) _)
    rw [List.any_append, Bool.or_eq_true, or_imp, hasPattern]

end

end Condition

namespace Staging

variable (target : Target)

theorem gated_branch (withPatterns : Bool) (held : Branch) :
    Gated (held.tests.any Condition.hasPattern = true → withPatterns = true)
      (branch withPatterns held) (branch true held) := by
  induction held with
  | last test consequent alternative =>
    rw [branch, branch, Branch.tests, List.any_cons, List.any_nil, Bool.or_false]
    exact gated_bind_same (gated_inside _ (Condition.gated_toExpression withPatterns test)) _
  | chain test consequent next inductionHypothesis =>
    rw [branch, branch, Branch.tests, List.any_cons, Bool.or_eq_true, or_imp]
    refine gated_bind (gated_inside _ (Condition.gated_toExpression withPatterns test)) fun test => ?_
    refine gated_congr (true_and _).to_iff.symm
      (gated_bind (gated_self trivial _) fun consequent => ?_)
    exact gated_bind_same (gated_inside _ inductionHypothesis) _

theorem gated_operationStages (backend : Backend) (operation : Operation) :
    Gated (backend.Serves operation.uses) (operationStages backend operation)
      (operationStages .mongo50 operation) := by
  cases operation with
  | ifThenElse newColumn held =>
    have allowed : backend.Serves (Operation.ifThenElse newColumn held).uses ↔
        (held.tests.any Condition.hasPattern = true → backend.supports .regexMatch = true) := by
      rw [Operation.uses]
      split <;> simp_all
    exact gated_congr allowed (gated_bind_same (gated_branch (backend.supports .regexMatch) held) _)
  | toDate column format =>
    rw [operationStages, operationStages, toDate, toDate, Operation.uses]
    split
    · exact gated_self Backend.serves_nil _
    · exact gated_congr Backend.serves_singleton (gated_bind_same (Backend.gated_require _ _) _)
  | trim columns =>
    exact gated_congr Backend.serves_singleton (gated_bind_same (Backend.gated_require _ _) _)
  | convert columns dataType =>
    exact gated_congr Backend.serves_singleton (gated_bind_same (Backend.gated_require _ _) _)
  | _ => exact gated_self Backend.serves_nil _

/-- The same target on the newest version. -/
def newest : Target := { target with backend := .mongo50 }

mutual

theorem gated_query : (steps : List Step) →
    Gated (target.backend.Serves (Pipeline.uses steps)) (query target steps)
      (query (newest target) steps)
  | [] => by
    rw [query, query, Pipeline.uses]
    exact gated_self Backend.serves_nil _
  | .domain name :: rest => by
    rw [query, query, Pipeline.uses, Step.uses, List.nil_append]
    exact gated_bind_same (gated_stepsStages 1 rest) _
  | .append _ :: _ | .join .. :: _ | .transform _ :: _ => by
    rw [query, query]
    · exact fun result => ⟨nofun, nofun⟩
    · exact nofun
    · exact nofun

theorem gated_stepsStages : (index : Nat) → (steps : List Step) →
    Gated (target.backend.Serves (Pipeline.uses steps)) (stepsStages target index steps)
      (stepsStages (newest target) index steps)
  | _, [] => by
    rw [stepsStages, stepsStages, Pipeline.uses]
    exact gated_self Backend.serves_nil _
  | index, first :: rest => by
    rw [stepsStages, stepsStages, Pipeline.uses]
    exact gated_congr Backend.serves_append
      (gated_bind (gated_inside _ (gated_stepStages first)) fun found =>
        gated_bind_same (gated_stepsStages (index + 1) rest) _)

theorem gated_stepStages : (step : Step) →
    Gated (target.backend.Serves step.uses) (stepStages target step)
      (stepStages (newest target) step)
  | .domain name => by
    rw [stepStages, stepStages, Step.uses]
    exact gated_self Backend.serves_nil _
  | .append none => by
    rw [stepStages, stepStages, Step.uses]
    exact gated_self Backend.serves_nil _
  | .append (some sources) => by
    rw [stepStages, stepStages, Step.uses]
    exact gated_bind_same (gated_sourceQueries 0 sources) _
  | .join right type on => by
    rw [stepStages, stepStages, Step.uses]
    split
    · exact fun result => ⟨nofun, nofun⟩
    · exact gated_bind_same (gated_inside _ (gated_sourceQuery right)) _
  | .transform operation => by
    rw [stepStages, stepStages, Step.uses]
    exact gated_operationStages target.backend operation

theorem gated_sourceQueries : (index : Nat) → (sources : List Reference) →
    Gated (target.backend.Serves (Reference.usesOf sources)) (sourceQueries target index sources)
      (sourceQueries (newest target) index sources)
  | _, [] => by
    rw [sourceQueries, sourceQueries, Reference.usesOf]
    exact gated_self Backend.serves_nil _
  | index, first :: rest => by
    rw [sourceQueries, sourceQueries, Reference.usesOf]
    exact gated_congr Backend.serves_append
      (gated_bind (gated_inside _ (gated_sourceQuery first)) fun found =>
        gated_bind_same (gated_sourceQueries (index + 1) rest) _)

theorem gated_sourceQuery : (reference : Reference) →
    Gated (target.backend.Serves reference.uses) (sourceQuery target reference)
      (sourceQuery (newest target) reference)
  | .named name => by
    rw [sourceQuery, sourceQuery, Reference.uses]
    exact gated_self Backend.serves_nil _
  | .inline steps => by
    rw [sourceQuery, sourceQuery, Reference.uses]
    exact gated_query steps

end

end Staging

namespace Pipeline

/-- A version gives a query exactly where the newest one does and it supports every feature the
pipeline uses; the query is then the newest version's. -/
theorem toQuery_eq_ok_iff_serves (backend : Backend) (simplifies : Bool) (pipeline : Pipeline)
    (query : Query) :
    pipeline.toQuery backend.name simplifies = .ok query ↔
      pipeline.toQuery Backend.mongo50.name simplifies = .ok query ∧
        ∀ feature ∈ uses pipeline, backend.supports feature := by
  have known (version : Backend) : pipeline.toQuery version.name simplifies =
      Staging.query ⟨version, simplifies⟩ pipeline := by
    have named : (version.name == "") = false := by cases version <;> rfl
    rw [toQuery, named, if_neg nofun, Backend.ofName?_name]
  rw [known, known]
  exact Staging.gated_query ⟨backend, simplifies⟩ pipeline query

end Pipeline

end StepQuery
