import Mathlib.Data.List.Chain
import Mathlib.Data.List.Forall2
import StepQuery.Proofs.Query.Stages

/-!
Merging match stages, run by run.  A stage that does more than match stands where it stood; the match
stages between two of them become one, whose document demands in order what theirs demand.  Stages
are told apart by the documents they are written as.
-/

namespace StepQuery

namespace Stage

/-- A stage whose document has no key but `$match`, and there a document.  What a custom stage holds is
a constant and counts as none. -/
def IsMergeable (stage : Stage) : Prop :=
  ∃ condition, stage.toTerm = Term.apply "$match" (.document condition)

/-- What a match demands of rows: the parts of its conjunction, or its document. -/
inductive Contributes : Stage → List Term → Prop
  | parts {stage demands} (present : demands ≠ [])
      (matched : stage.toTerm = Term.apply "$match" (Term.apply "$and" (.array demands))) :
      Contributes stage demands
  | whole {stage condition}
      (other : ∀ demands, demands ≠ [] → .document condition ≠ Term.apply "$and" (.array demands))
      (matched : stage.toTerm = Term.apply "$match" (.document condition)) :
      Contributes stage [.document condition]

/-- The term for several demands together; one alone stands for itself. -/
def together : List Term → Term
  | [single] => single
  | demands => Term.apply "$and" (.array demands)

/-- The stages that a run of mergeable stages becomes: one, unless the run is empty. -/
inductive Becomes : List Stage → List Stage → Prop
  | nothing : Becomes [] []
  | single {run contributions} (present : run ≠ [])
      (contribute : List.Forall₂ Contributes run contributions) :
      Becomes run [ofFields [("$match", together contributions.flatten)]]

/-- Stages and what is made of them: runs of mergeable stages become one each, and every other stage
stays. -/
inductive Merges : List Stage → List Stage → Prop
  | run {run outcome} (becomes : Becomes run outcome) : Merges run outcome
  | other {run outcome stage rest result} (becomes : Becomes run outcome)
      (stays : ¬stage.IsMergeable) (later : Merges rest result) :
      Merges (run ++ stage :: rest) (outcome ++ stage :: result)

section Documents

theorem toTerm_ofFields (fields : List (String × Term)) : (ofFields fields).toTerm = .document fields := by
  unfold ofFields
  split <;> rw [toTerm]
  rfl

variable {stage : Stage} {demands : List Term} {condition : List (String × Term)}

theorem isMergeable_matching (condition : List (String × Term)) : (matching condition).IsMergeable :=
  ⟨condition, by rw [toTerm]⟩

theorem eq_matching_of_toTerm (proper : stage.Proper)
    (matched : stage.toTerm = Term.apply "$match" (.document condition)) :
    stage = .matching condition := by
  cases stage with
  | matching => simpa [toTerm, Term.apply] using matched
  | custom fields =>
    rw [toTerm] at matched
    cases matched
    exact absurd rfl (proper condition)
  | _ => simp [toTerm, Term.apply] at matched

theorem contributes_matching (condition : List (String × Term)) :
    Contributes (.matching condition) (conjuncts condition) := by
  unfold conjuncts
  split
  next first rest => exact .parts (List.cons_ne_nil first rest) (by rw [toTerm]; rfl)
  next condition other =>
    refine .whole (fun demands present same => ?_) (by rw [toTerm])
    obtain ⟨first, rest, rfl⟩ := List.exists_cons_of_ne_nil present
    cases same
    exact other first rest rfl

theorem Contributes.ne_nil (contributes : Contributes stage demands) : demands ≠ [] := by
  cases contributes with
  | parts present _ => exact present
  | whole => exact List.cons_ne_nil _ _

theorem Contributes.eq_conjuncts (contributes : Contributes stage demands) (proper : stage.Proper) :
    ∃ condition, stage = .matching condition ∧ conjuncts condition = demands := by
  cases contributes with
  | parts present matched =>
    refine ⟨_, eq_matching_of_toTerm proper matched, ?_⟩
    obtain ⟨first, rest, rfl⟩ := List.exists_cons_of_ne_nil present
    rfl
  | whole other matched =>
    refine ⟨_, eq_matching_of_toTerm proper matched, ?_⟩
    unfold conjuncts
    split
    next first rest => exact absurd rfl (other (first :: rest) (List.cons_ne_nil _ _))
    next => rfl

theorem merged_eq (present : demands ≠ []) :
    merged demands = [ofFields [("$match", together demands)]] := by
  cases demands with
  | nil => exact absurd rfl present
  | cons first rest => cases rest <;> cases first <;> rfl

end Documents

section Runs

variable {run stages result outcome : List Stage} {contributions : List (List Term)}

/-- A run leaves its demands to what follows it. -/
theorem simplifyFrom_append (contribute : List.Forall₂ Contributes run contributions)
    (proper : ∀ stage ∈ run, stage.Proper) (demands : List Term) (rest : List Stage) :
    simplifyFrom demands (run ++ rest) = simplifyFrom (demands ++ contributions.flatten) rest := by
  induction contribute generalizing demands with
  | nil => rw [List.nil_append, List.flatten_nil, List.append_nil]
  | cons contributes _ inductionHypothesis =>
    obtain ⟨first, later⟩ := List.forall_mem_cons.mp proper
    obtain ⟨condition, rfl, rfl⟩ := contributes.eq_conjuncts first
    rw [List.cons_append, simplifyFrom, inductionHypothesis later, List.flatten_cons,
      List.append_assoc]

/-- A run becomes what its demands are merged into, once no more of it follows. -/
theorem Becomes.simplifyFrom_append (becomes : Becomes run outcome)
    (proper : ∀ stage ∈ run, stage.Proper) (rest : List Stage) :
    ∃ demands, simplifyFrom [] (run ++ rest) = simplifyFrom demands rest ∧
      merged demands = outcome := by
  cases becomes with
  | nothing => exact ⟨[], rfl, rfl⟩
  | @single _ contributions present contribute =>
    refine ⟨contributions.flatten, Stage.simplifyFrom_append contribute proper [] rest,
      merged_eq ?_⟩
    cases contribute with
    | nil => exact absurd rfl present
    | cons contributes _ =>
      rw [List.flatten_cons]
      exact List.append_ne_nil_of_left_ne_nil contributes.ne_nil _

theorem Merges.simplify_eq (merges : Merges stages result)
    (proper : ∀ stage ∈ stages, stage.Proper) : simplify stages = result := by
  induction merges with
  | run becomes =>
    obtain ⟨demands, same, rfl⟩ := becomes.simplifyFrom_append proper []
    rw [List.append_nil] at same
    rw [simplify, same, simplifyFrom]
  | @other run outcome stage rest result becomes stays _ inductionHypothesis =>
    obtain ⟨before, behind⟩ := List.forall_mem_append.mp proper
    have unmatched : ¬∃ condition, stage = .matching condition := by
      rintro ⟨condition, rfl⟩
      exact stays (isMergeable_matching condition)
    obtain ⟨demands, same, rfl⟩ := becomes.simplifyFrom_append before (stage :: rest)
    rw [simplify, same, simplifyFrom_cons unmatched]
    exact congrArg (merged demands ++ stage :: ·)
      (inductionHypothesis (List.forall_mem_cons.mp behind).2)

/-- A mergeable stage joins the run behind it. -/
theorem Becomes.cons {stage : Stage} {demands : List Term} (contributes : Contributes stage demands)
    (becomes : Becomes run outcome) : ∃ outcome, Becomes (stage :: run) outcome := by
  cases becomes with
  | nothing => exact ⟨_, .single (List.cons_ne_nil _ _) (.cons contributes .nil)⟩
  | single _ contribute => exact ⟨_, .single (List.cons_ne_nil _ _) (.cons contributes contribute)⟩

/-- Whatever the stages, they are made of runs with other stages between them. -/
theorem exists_merges (proper : ∀ stage ∈ stages, stage.Proper) :
    ∃ result, Merges stages result := by
  induction stages with
  | nil => exact ⟨[], .run .nothing⟩
  | cons stage rest inductionHypothesis =>
    obtain ⟨first, others⟩ := List.forall_mem_cons.mp proper
    obtain ⟨result, merges⟩ := inductionHypothesis others
    by_cases mergeable : stage.IsMergeable
    · obtain ⟨condition, matched⟩ := mergeable
      rw [eq_matching_of_toTerm first matched]
      have contributes := contributes_matching condition
      cases merges with
      | run becomes =>
        obtain ⟨outcome, becomes⟩ := becomes.cons contributes
        exact ⟨outcome, .run becomes⟩
      | other becomes stays later =>
        obtain ⟨outcome, becomes⟩ := becomes.cons contributes
        exact ⟨_, .other becomes stays later⟩
    · exact ⟨_, .other .nothing mergeable merges⟩

/-- Of two stages in a row one does more than match. -/
theorem Merges.isChain (merges : Merges stages result) :
    result.IsChain fun stage next => ¬(stage.IsMergeable ∧ next.IsMergeable) := by
  induction merges with
  | run becomes => cases becomes <;> simp
  | @other run outcome stage rest result becomes stays _ inductionHypothesis =>
    have behind := inductionHypothesis.cons fun next _ both => stays both.1
    cases becomes with
    | nothing => exact behind
    | single =>
      refine behind.cons ?_
      rintro _ ⟨⟩ both
      exact stays both.2

/-- Every document is that of a proper stage.  Merging makes one stage of each run of mergeable stages,
leaves every other stage where it is, and leaves no two mergeable stages in a row. -/
theorem simplify_merges_runs :
    (∀ fields, (ofFields fields).Proper ∧ (ofFields fields).toTerm = .document fields) ∧
    ∀ stages, (∀ stage ∈ stages, stage.Proper) →
      (∀ result, simplify stages = result ↔ Merges stages result) ∧
        (simplify stages).IsChain fun stage next => ¬(stage.IsMergeable ∧ next.IsMergeable) := by
  refine ⟨fun fields => ⟨proper_ofFields fields, toTerm_ofFields fields⟩, fun stages proper => ?_⟩
  obtain ⟨result, merges⟩ := exists_merges proper
  obtain rfl := merges.simplify_eq proper
  refine ⟨fun result => ⟨?_, fun merges => merges.simplify_eq proper⟩, merges.isChain⟩
  rintro rfl
  exact merges

end Runs

/-- A condition on one field, with the number it asks for. -/
def asking (field : String) (number : Int) : Term := Term.apply field (Term.int number)

/-- Two runs, the second with a conjunction of nothing in it; a stage with a second key is between
them. -/
def scattered : List Stage :=
  [ofFields [("$match", asking "a" 1)],
    ofFields [("$match", Term.apply "$and" (.array [asking "b" 2, asking "c" 3]))],
    .project [("a", Term.int 1)],
    ofFields [("$match", asking "d" 4), ("$comment", Term.text "kept")],
    ofFields [("$match", Term.apply "$and" (.array []))],
    ofFields [("$match", Term.apply "$or" (.array [asking "e" 5]))]]

theorem simplify_merges_scattered :
    (∀ stage ∈ scattered, stage.Proper) ∧ Merges scattered
      [ofFields [("$match", Term.apply "$and" (.array [asking "a" 1, asking "b" 2, asking "c" 3]))],
        .project [("a", Term.int 1)],
        ofFields [("$match", asking "d" 4), ("$comment", Term.text "kept")],
        ofFields [("$match", Term.apply "$and" (.array
          [Term.apply "$and" (.array []), Term.apply "$or" (.array [asking "e" 5])]))]] := by
  have proper : ∀ stage ∈ scattered, stage.Proper := by
    simp [scattered, proper_ofFields]
  exact ⟨proper, ((simplify_merges_runs.2 _ proper).1 _).mp rfl⟩

end Stage

namespace Staging

/-- The stages that are merged in a query are proper. -/
theorem proper_stepsStages {target : Target} {index : Nat} {steps : List Step} {stages : List Stage}
    (returned : stepsStages target index steps = .ok stages) : ∀ stage ∈ stages, stage.Proper := by
  induction steps generalizing index stages with
  | nil =>
    rw [stepsStages] at returned
    cases returned
    exact List.forall_mem_nil _
  | cons step rest inductionHypothesis =>
    rw [stepsStages] at returned
    obtain ⟨found, staged, returned⟩ := Attempt.bind_eq_ok.mp returned
    obtain ⟨others, later, returned⟩ := Attempt.bind_eq_ok.mp returned
    cases returned
    have crafted := crafted_stepStages (Attempt.inside_eq_ok.mp staged)
    exact List.forall_mem_append.mpr
      ⟨fun stage member => (crafted stage member).2, inductionHypothesis later⟩

end Staging

end StepQuery
