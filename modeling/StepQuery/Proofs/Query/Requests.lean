import Mathlib.Data.List.Forall2
import StepQuery.Proofs.Attempt
import StepQuery.Proofs.Fields
import StepQuery.Query.Operation

/-!
What aggregations ask for and what they are given.  Every column of an accepted list is met by one
aggregated column, in its order: gathered as its function says, under its new name, and shown as it was
gathered, or counted if the values are gathered as a set.
-/

namespace StepQuery.Staging

/-- One column to aggregate. -/
structure Request where
  function : String
  column : String
  newColumn : String

/-- What aggregations ask for, one column after the other. -/
def requests (aggregations : List Aggregation) : List Request :=
  aggregations.flatMap fun aggregation =>
    ((names aggregation.columns).zip (names aggregation.newColumns)).map fun pair =>
      ⟨aggregation.function, pair.1, pair.2⟩

theorem exists_of_mem_requests {aggregations : List Aggregation} {request : Request}
    (member : request ∈ requests aggregations) : ∃ aggregation ∈ aggregations,
      request.column ∈ names aggregation.columns ∧
        request.newColumn ∈ names aggregation.newColumns := by
  obtain ⟨aggregation, within, asked⟩ := List.mem_flatMap.mp member
  obtain ⟨pair, zipped, rfl⟩ := List.mem_map.mp asked
  exact ⟨aggregation, within, List.of_mem_zip zipped⟩

/-- The columns that aggregations add. -/
def newColumns (aggregations : List Aggregation) : List String :=
  aggregations.flatMap fun aggregation => names aggregation.newColumns

namespace Request

/-- The number of different values is shown of a set, and of all else what it is. -/
structure Meets (request : Request) (made : Aggregated) : Prop where
  name : made.name = request.newColumn
  gathered : accumulator request.function request.column = .ok made.gathered
  projected : made.projected = if request.function = "count distinct" then
    Term.apply "$size" (Term.column request.newColumn) else Term.int 1
  merged : made.merged = if request.function = "count distinct" then
    Term.apply "$size" (Term.column request.newColumn) else Term.column request.newColumn

theorem meets_of_aggregated {request : Request} {made : Aggregated}
    (written : aggregated request.function request.column request.newColumn = .ok made) :
    request.Meets made := by
  obtain ⟨gathered, accumulated, written⟩ := Attempt.bind_eq_ok.mp written
  split at written <;> cases written
  next distinct =>
    have counted : request.function = "count distinct" := by simpa using distinct
    exact ⟨rfl, accumulated, (if_pos counted).symm, (if_pos counted).symm⟩
  next other =>
    have shown : request.function ≠ "count distinct" := by simpa using other
    exact ⟨rfl, accumulated, (if_neg shown).symm, (if_neg shown).symm⟩

end Request

section Lists

theorem meets_aggregatedColumns {function : String} {pairs : List (String × String)}
    {found : List Aggregated} (written : aggregatedColumns function pairs = .ok found) :
    List.Forall₂ Request.Meets (pairs.map fun pair => ⟨function, pair.1, pair.2⟩) found := by
  induction pairs generalizing found with
  | nil =>
    cases written
    exact .nil
  | cons pair rest inductionHypothesis =>
    obtain ⟨first, aggregates, written⟩ := Attempt.bind_eq_ok.mp written
    obtain ⟨others, later, written⟩ := Attempt.bind_eq_ok.mp written
    cases written
    exact .cons (Request.meets_of_aggregated aggregates) (inductionHypothesis later)

/-- An accepted aggregation names as many new columns as columns. -/
theorem aggregatedAll_cons_eq_ok {aggregation : Aggregation} {rest : List Aggregation}
    {found : List Aggregated} : aggregatedAll (aggregation :: rest) = .ok found ↔
      (names aggregation.columns).length = (names aggregation.newColumns).length ∧
        ∃ first others, aggregatedColumns aggregation.function
            ((names aggregation.columns).zip (names aggregation.newColumns)) = .ok first ∧
          aggregatedAll rest = .ok others ∧ first ++ others = found := by
  rw [aggregatedAll]
  by_cases lengths : (names aggregation.columns).length = (names aggregation.newColumns).length
  · simp [lengths, Attempt.bind_eq_ok, Attempt.pure_eq_ok]
  · simp [lengths]

theorem meets_aggregatedAll {aggregations : List Aggregation} {found : List Aggregated}
    (written : aggregatedAll aggregations = .ok found) :
    List.Forall₂ Request.Meets (requests aggregations) found := by
  induction aggregations generalizing found with
  | nil =>
    cases written
    exact .nil
  | cons aggregation rest inductionHypothesis =>
    obtain ⟨_, first, others, aggregates, later, rfl⟩ := aggregatedAll_cons_eq_ok.mp written
    exact List.rel_append (meets_aggregatedColumns aggregates) (inductionHypothesis later)

theorem exists_request {asked : List Request} {found : List Aggregated}
    (met : List.Forall₂ Request.Meets asked found) {made : Aggregated} (member : made ∈ found) :
    ∃ request ∈ asked, request.Meets made := by
  induction met with
  | nil => cases member
  | cons first _ inductionHypothesis =>
    rcases List.mem_cons.mp member with rfl | later
    · exact ⟨_, List.mem_cons_self, first⟩
    · obtain ⟨request, within, meets⟩ := inductionHypothesis later
      exact ⟨request, List.mem_cons_of_mem _ within, meets⟩

/-- The columns that aggregations give are the new ones. -/
theorem mem_of_aggregatedAll {aggregations : List Aggregation} {found : List Aggregated}
    (written : aggregatedAll aggregations = .ok found) : ∀ column ∈ found,
      ∃ aggregation ∈ aggregations, column.name ∈ names aggregation.newColumns := by
  intro column member
  obtain ⟨request, asked, meets⟩ := exists_request (meets_aggregatedAll written) member
  obtain ⟨aggregation, within, _, new⟩ := exists_of_mem_requests asked
  exact ⟨aggregation, within, meets.name ▸ new⟩

/-- In an accepted list every new column is asked for. -/
theorem newColumns_eq {aggregations : List Aggregation} {found : List Aggregated}
    (written : aggregatedAll aggregations = .ok found) :
    newColumns aggregations = (requests aggregations).map (·.newColumn) := by
  induction aggregations generalizing found with
  | nil => rfl
  | cons aggregation rest inductionHypothesis =>
    obtain ⟨lengths, _, others, _, later, _⟩ := aggregatedAll_cons_eq_ok.mp written
    have own : (((names aggregation.columns).zip (names aggregation.newColumns)).map fun pair =>
        Request.newColumn ⟨aggregation.function, pair.1, pair.2⟩) = names aggregation.newColumns :=
      List.map_snd_zip lengths.ge
    change names aggregation.newColumns ++ newColumns rest = List.map _ (_ ++ requests rest)
    rw [List.map_append, List.map_map, inductionHypothesis later]
    exact congrArg (· ++ _) own.symm

/-- What meets the last request for a new column is the last of its name. -/
theorem exists_met {before after : List Request} {request : Request} {found : List Aggregated}
    (met : List.Forall₂ Request.Meets (before ++ request :: after) found)
    (last : ∀ other ∈ after, other.newColumn ≠ request.newColumn) :
    ∃ first made rest, found = first ++ made :: rest ∧ request.Meets made ∧
      ∀ other ∈ rest, other.name ≠ request.newColumn := by
  induction before generalizing found with
  | nil =>
    cases met with
    | cons meets later =>
      refine ⟨[], _, _, rfl, meets, fun other member => ?_⟩
      obtain ⟨asked, within, named⟩ := exists_request later member
      exact named.name ▸ last asked within
  | cons other rest inductionHypothesis =>
    cases met with
    | cons _ later =>
      obtain ⟨first, made, behind, rfl, meets, others⟩ := inductionHypothesis later
      exact ⟨_ :: first, made, behind, rfl, meets, others⟩

/-- Of the requests for a new column one is the last. -/
theorem exists_last {asked : List Request} {request : Request} (member : request ∈ asked) :
    ∃ before last after, asked = before ++ last :: after ∧ last.newColumn = request.newColumn ∧
      ∀ other ∈ after, other.newColumn ≠ last.newColumn := by
  induction asked generalizing request with
  | nil => cases member
  | cons first rest inductionHypothesis =>
    by_cases again : ∃ other ∈ rest, other.newColumn = request.newColumn
    · obtain ⟨other, within, same⟩ := again
      obtain ⟨before, last, after, rfl, named, behind⟩ := inductionHypothesis within
      exact ⟨first :: before, last, after, rfl, named.trans same, behind⟩
    · rcases List.mem_cons.mp member with rfl | later
      · exact ⟨[], request, rest, rfl, rfl, fun other within same => again ⟨other, within, same⟩⟩
      · exact absurd ⟨request, later, rfl⟩ again

end Lists

end StepQuery.Staging
