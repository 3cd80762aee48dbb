import StepQuery.Proofs.Condition.Verdict

/-!
Conditions that have no form in the languages of the database.  Each language reads a condition on its
own, with its own table of operators, but both stop at the same node, the first in reading order with
its own fault, and say the same about it.
-/

namespace StepQuery.Condition

mutual

/-- The nodes of a condition in reading order, each before its children. -/
def nodes : Condition → List Condition
  | .absent => [.absent]
  | .simple comparison => [.simple comparison]
  | .all children => .all children :: nodesOf children
  | .any children => .any children :: nodesOf children

def nodesOf : List Condition → List Condition
  | [] => []
  | child :: rest => nodes child ++ nodesOf rest

end

/-- What can be wrong with a node, its children left aside: it is missing, its operator is not known, or
it looks for a member of something that is no list. -/
inductive Fault : Condition → Kind → Failure → Prop
  | missing : Fault .absent .invalidCondition (.refusal [] .absentCondition)
  | operator {comparison : Comparison} (unknown : comparison.operator ∉ Comparison.operators) :
      Fault (.simple comparison) .unsupportedOperator
        (.refusal [] (.unsupportedOperator comparison.operator))
  | value {comparison : Comparison} (member : comparison.operator ∈ ["in", "nin"])
      (single : ∀ items, comparison.value ≠ .list items) :
      Fault (.simple comparison) .invalidCondition
        (.refusal [] (.listWanted comparison.operator comparison.column))

/-- The first node of a condition that has a fault, and the fault that it has. -/
def FirstFault (condition : Condition) (kind : Kind) (failure : Failure) : Prop :=
  ∃ before node after, condition.nodes = before ++ node :: after ∧
    (∀ earlier ∈ before, ∀ kind failure, ¬Fault earlier kind failure) ∧ Fault node kind failure

/-- The fault of a node, found by its operator first. -/
def fault? : Condition → Option Failure
  | .absent => some (.refusal [] .absentCondition)
  | .simple comparison =>
    if comparison.operator ∈ Comparison.operators then
      if comparison.operator ∈ ["in", "nin"] ∧ isList comparison.value = false then
        some (.refusal [] (.listWanted comparison.operator comparison.column))
      else none
    else some (.refusal [] (.unsupportedOperator comparison.operator))
  | .all _ | .any _ => none

theorem isList_eq_false_iff {value : Value} :
    isList value = false ↔ ∀ items, value ≠ .list items := by
  cases value <;> simp [isList]

theorem fault?_eq_some_iff {node : Condition} {failure : Failure} :
    node.fault? = some failure ↔ ∃ kind, Fault node kind failure := by
  constructor
  · intro found
    unfold fault? at found
    split at found
    · cases found
      exact ⟨_, .missing⟩
    · next comparison =>
      split_ifs at found with known unlisted
      · cases found
        exact ⟨_, .value unlisted.1 (isList_eq_false_iff.mp unlisted.2)⟩
      · cases found
        exact ⟨_, .operator known⟩
    · cases found
    · cases found
  · rintro ⟨kind, fault⟩
    cases fault with
    | missing => rfl
    | operator unknown => rw [fault?, if_neg unknown]
    | @value comparison member single =>
      have known : ["in", "nin"] ⊆ Comparison.operators := by decide
      rw [fault?, if_pos (known member), if_pos ⟨member, isList_eq_false_iff.mpr single⟩]

section Comparisons

variable {column operator : String} (value : Value)

theorem fault?_of_unknown (unknown : operator ∉ Comparison.operators) :
    fault? (.simple ⟨column, operator, value⟩) =
      some (.refusal [] (.unsupportedOperator operator)) := if_neg unknown

theorem failure?_comparisonMatch (comparison : Comparison) :
    Attempt.failure? (comparisonMatch comparison) = (simple comparison).fault? := by
  obtain ⟨column, operator, value⟩ := comparison
  by_cases known : operator ∈ Comparison.operators
  · simp only [Comparison.operators, List.mem_cons, List.not_mem_nil, or_false] at known
    rcases known with
      rfl | rfl | rfl | rfl | rfl | rfl | rfl | rfl | rfl | rfl | rfl | rfl | rfl | rfl
    iterate 8 rfl
    · cases value <;> rfl
    · cases value <;> rfl
    iterate 4 rfl
  · rw [fault?_of_unknown value known]
    simp only [Comparison.operators, List.mem_cons, List.not_mem_nil, or_false, not_or] at known
    simp [comparisonMatch, matchOperator?, known, Attempt.failure?, Attempt.fail]

theorem failure?_comparisonExpression (comparison : Comparison) :
    Attempt.failure? (comparisonExpression true comparison) = (simple comparison).fault? := by
  obtain ⟨column, operator, value⟩ := comparison
  by_cases known : operator ∈ Comparison.operators
  · simp only [Comparison.operators, List.mem_cons, List.not_mem_nil, or_false] at known
    rcases known with
      rfl | rfl | rfl | rfl | rfl | rfl | rfl | rfl | rfl | rfl | rfl | rfl | rfl | rfl
    iterate 8 rfl
    · cases value <;> rfl
    · cases value <;> rfl
    iterate 4 rfl
  · rw [fault?_of_unknown value known]
    simp only [Comparison.operators, List.mem_cons, List.not_mem_nil, or_false, not_or] at known
    simp [comparisonExpression, expressionOperator?, known, Attempt.failure?, Attempt.fail]

end Comparisons

mutual

/-- A combination has no fault of its own, so what stops it is what first stops one of its children. -/
theorem failure?_toMatch : (condition : Condition) →
    Attempt.failure? condition.toMatch = condition.nodes.findSome? fault?
  | .absent => rfl
  | .simple comparison => by
    rw [toMatch, failure?_comparisonMatch, nodes, List.findSome?_singleton]
  | .all children | .any children => by
    rw [toMatch, nodes, List.findSome?_cons_of_isNone rfl, ← failure?_toMatches children]
    exact Attempt.failure?_bind_pure ..

theorem failure?_toMatches : (children : List Condition) →
    Attempt.failure? (toMatches children) = (nodesOf children).findSome? fault?
  | [] => by
    rw [toMatches, nodesOf]
    rfl
  | child :: rest => by
    rw [toMatches, nodesOf, List.findSome?_append, ← failure?_toMatch child,
      ← failure?_toMatches rest]
    exact Attempt.failure?_bind fun _ => Attempt.failure?_bind_pure ..

end

mutual

theorem failure?_toExpression : (condition : Condition) →
    Attempt.failure? (condition.toExpression true) = condition.nodes.findSome? fault?
  | .absent => rfl
  | .simple comparison => by
    rw [toExpression, failure?_comparisonExpression, nodes, List.findSome?_singleton]
  | .all children | .any children => by
    rw [toExpression, nodes, List.findSome?_cons_of_isNone rfl, ← failure?_toExpressions children]
    exact Attempt.failure?_bind_pure ..

theorem failure?_toExpressions : (children : List Condition) →
    Attempt.failure? (toExpressions true children) = (nodesOf children).findSome? fault?
  | [] => by
    rw [toExpressions, nodesOf]
    rfl
  | child :: rest => by
    rw [toExpressions, nodesOf, List.findSome?_append, ← failure?_toExpression child,
      ← failure?_toExpressions rest]
    exact Attempt.failure?_bind fun _ => Attempt.failure?_bind_pure ..

end

theorem findSome?_fault?_eq_some {condition : Condition} {failure : Failure} :
    condition.nodes.findSome? fault? = some failure ↔ ∃ kind, condition.FirstFault kind failure := by
  rw [List.findSome?_eq_some_iff]
  constructor
  · rintro ⟨before, node, after, split, found, sound⟩
    obtain ⟨kind, fault⟩ := fault?_eq_some_iff.mp found
    refine ⟨kind, before, node, after, split, fun earlier within kind failure broken => ?_, fault⟩
    have earlierFault := fault?_eq_some_iff.mpr ⟨kind, broken⟩
    rw [sound earlier within] at earlierFault
    cases earlierFault
  · rintro ⟨kind, before, node, after, split, sound, fault⟩
    refine ⟨before, node, after, split, fault?_eq_some_iff.mpr ⟨kind, fault⟩, fun earlier within => ?_⟩
    cases found : earlier.fault? with
    | none => rfl
    | some failure =>
      obtain ⟨kind, broken⟩ := fault?_eq_some_iff.mp found
      exact absurd broken (sound earlier within kind failure)

theorem kinds_of_fault {node : Condition} {kind : Kind} {failure : Failure}
    (fault : Fault node kind failure) : failure.kinds = [kind] := by
  cases fault <;> exact Failure.kinds_refusal rfl nofun

theorem toMatch_eq_error_iff {condition : Condition} {failure : Failure} :
    condition.toMatch = .error failure ↔
      ∃ kind, condition.FirstFault kind failure ∧ failure.kinds = [kind] := by
  rw [← Attempt.failure?_eq_some, failure?_toMatch, findSome?_fault?_eq_some]
  refine exists_congr fun kind => (and_iff_left_of_imp ?_).symm
  rintro ⟨before, node, after, split, sound, fault⟩
  exact kinds_of_fault fault

theorem exists_toMatch_error_iff {condition : Condition} :
    (∃ failure, condition.toMatch = .error failure) ↔
      ∃ node ∈ condition.nodes, ∃ kind failure, Fault node kind failure := by
  simp only [← Attempt.failure?_eq_some, failure?_toMatch, ← Option.isSome_iff_exists,
    List.findSome?_isSome_iff]
  simp only [Option.isSome_iff_exists, fault?_eq_some_iff]
  exact exists_congr fun node => and_congr_right fun _ => exists_comm

/-- Both languages refuse the same conditions, those with a fault in one of their nodes, and both refuse
a condition for the first of its faults. -/
theorem toMatch_toExpression_refuse (condition : Condition) :
    ((∃ failure, condition.toMatch = .error failure) ↔
        ∃ node ∈ condition.nodes, ∃ kind failure, Fault node kind failure) ∧
      (∀ failure, condition.toMatch = .error failure ↔
        ∃ kind, condition.FirstFault kind failure ∧ failure.kinds = [kind]) ∧
      ∀ failure, condition.toExpression true = .error failure ↔ condition.toMatch = .error failure := by
  refine ⟨exists_toMatch_error_iff, fun failure => toMatch_eq_error_iff, fun failure => ?_⟩
  rw [← Attempt.failure?_eq_some, ← Attempt.failure?_eq_some, failure?_toMatch,
    failure?_toExpression]

/-- The first fault counts, at whatever level it is. -/
example (withPatterns : Bool) :
    toExpression withPatterns (.all [.any [.all [], .simple ⟨"age", "in", .int 18⟩], .absent]) =
      Attempt.fail (.listWanted "in" "age") := rfl

end StepQuery.Condition
