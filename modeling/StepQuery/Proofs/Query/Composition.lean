import Mathlib.Data.List.Forall2
import StepQuery.Proofs.Query.Stages

/-!
How queries are put together.  A pipeline relates to its query as its steps relate to their stages, and
a step with pipelines of its own relates to its stages as those pipelines relate to their queries.  A
relation that is kept by each way of putting stages together therefore holds of every query that is
made; the recursion through steps and references is gone through here and need not be repeated.
-/

namespace StepQuery

namespace Staging

/-- What a reference gives, when pipelines written in place are related to their queries. -/
def FromSource (onQuery : List Step → Query → Prop) : Reference → Query → Prop
  | .named name, found => found = ⟨name, []⟩
  | .inline steps, found => onQuery steps found

/-- A relation of pipelines to queries and of steps to stages, kept by every way of putting them
together. -/
structure Compositional (target : Target) (onQuery : List Step → Query → Prop)
    (onStep : Step → List Stage → Prop) : Prop where
  assembled : ∀ name rest parts, List.Forall₂ onStep rest parts →
    (∀ stage ∈ parts.flatten, stage.Regular) →
    onQuery (.domain name :: rest)
      ⟨name, if target.simplifies then Stage.simplify parts.flatten else parts.flatten⟩
  appended : ∀ sources queries, List.Forall₂ (FromSource onQuery) (sources.getD []) queries →
    onStep (.append sources) (append queries)
  joined : ∀ right type on other stages, on.getD [] ≠ [] → FromSource onQuery right other →
    join type (on.getD []) other = .ok stages → onStep (.join right type on) stages
  transformed : ∀ operation stages, operationStages target.backend operation = .ok stages →
    onStep (.transform operation) stages

namespace Compositional

variable {target : Target} {onQuery : List Step → Query → Prop} {onStep : Step → List Stage → Prop}

mutual

theorem of_query (kept : Compositional target onQuery onStep) : (steps : List Step) →
    (found : Query) → query target steps = .ok found → onQuery steps found
  | [], _, returned => by
    rw [query] at returned
    cases returned
  | .domain name :: rest, _, returned => by
    rw [query] at returned
    obtain ⟨stages, staged, returned⟩ := Attempt.bind_eq_ok.mp returned
    cases returned
    obtain ⟨parts, rfl, each, regular⟩ := of_stepsStages kept 1 rest stages staged
    exact kept.assembled name rest parts each regular
  | .append _ :: _, _, returned | .join .. :: _, _, returned | .transform _ :: _, _, returned => by
    rw [query] at returned
    · cases returned
    · exact nofun

theorem of_stepsStages (kept : Compositional target onQuery onStep) : (index : Nat) →
    (steps : List Step) → (found : List Stage) → stepsStages target index steps = .ok found →
    ∃ parts, found = parts.flatten ∧ List.Forall₂ onStep steps parts ∧
      ∀ stage ∈ parts.flatten, stage.Regular
  | _, [], _, returned => by
    rw [stepsStages] at returned
    cases returned
    exact ⟨[], rfl, .nil, nofun⟩
  | index, first :: rest, _, returned => by
    rw [stepsStages] at returned
    obtain ⟨found, staged, returned⟩ := Attempt.bind_eq_ok.mp returned
    obtain ⟨others, later, returned⟩ := Attempt.bind_eq_ok.mp returned
    cases returned
    obtain ⟨parts, rfl, each, regular⟩ := of_stepsStages kept (index + 1) rest others later
    have staged := Attempt.inside_eq_ok.mp staged
    exact ⟨found :: parts, rfl, .cons (of_stepStages kept first found staged) each,
      List.forall_mem_append.mpr ⟨fun stage member => (crafted_stepStages staged stage member).1, regular⟩⟩

theorem of_stepStages (kept : Compositional target onQuery onStep) : (step : Step) →
    (found : List Stage) → stepStages target step = .ok found → onStep step found
  | .domain _, _, returned => by
    rw [stepStages] at returned
    cases returned
  | .append none, _, returned => by
    rw [stepStages] at returned
    cases returned
    exact kept.appended none [] .nil
  | .append (some sources), _, returned => by
    rw [stepStages] at returned
    obtain ⟨queries, staged, returned⟩ := Attempt.bind_eq_ok.mp returned
    cases returned
    exact kept.appended (some sources) queries (of_sourceQueries kept 0 sources queries staged)
  | .join right type on, found, returned => by
    rw [stepStages] at returned
    split at returned
    next => cases returned
    next paired =>
      obtain ⟨other, staged, returned⟩ := Attempt.bind_eq_ok.mp returned
      exact kept.joined right type on other found paired
        (of_sourceQuery kept right other (Attempt.inside_eq_ok.mp staged)) returned
  | .transform operation, found, returned => by
    rw [stepStages] at returned
    exact kept.transformed operation found returned

theorem of_sourceQueries (kept : Compositional target onQuery onStep) : (index : Nat) →
    (sources : List Reference) → (found : List Query) →
    sourceQueries target index sources = .ok found →
    List.Forall₂ (FromSource onQuery) sources found
  | _, [], _, returned => by
    rw [sourceQueries] at returned
    cases returned
    exact .nil
  | index, first :: rest, _, returned => by
    rw [sourceQueries] at returned
    obtain ⟨found, staged, returned⟩ := Attempt.bind_eq_ok.mp returned
    obtain ⟨others, later, returned⟩ := Attempt.bind_eq_ok.mp returned
    cases returned
    exact .cons (of_sourceQuery kept first found (Attempt.inside_eq_ok.mp staged))
      (of_sourceQueries kept (index + 1) rest others later)

theorem of_sourceQuery (kept : Compositional target onQuery onStep) : (reference : Reference) →
    (found : Query) → sourceQuery target reference = .ok found → FromSource onQuery reference found
  | .named name, _, returned => by
    rw [sourceQuery] at returned
    cases returned
    rfl
  | .inline steps, found, returned => by
    rw [sourceQuery] at returned
    exact of_query kept steps found returned

end

end Compositional

end Staging

namespace Pipeline

theorem query_of_toQuery {pipeline : Pipeline} {backend : String} {simplifies : Bool} {query : Query}
    (returned : pipeline.toQuery backend simplifies = .ok query) :
    ∃ known, Staging.query ⟨known, simplifies⟩ pipeline = .ok query := by
  unfold toQuery at returned
  split at returned
  next known _ => exact ⟨known, returned⟩
  next => cases returned

end Pipeline

end StepQuery
