import StepQuery.Proofs.Acceptance.Grammar
import StepQuery.Proofs.Condition.Agreement

/-!
Which conditions give accepted documents and expressions.  A match document combines what its condition
combines, so no combination may be empty; an expression may do without parts.
-/

namespace StepQuery

namespace Comparison

/-- Whether the value of a comparison is accepted in a match document, where equality is written
without an operator. -/
def isAcceptedInMatch (comparison : Comparison) : Bool :=
  comparison.isNullCheck ||
    (comparison.operator != "eq" ||
        Grammar.demand.takes comparison.column comparison.value) &&
      comparison.value.conforms .demand

/-- Whether the value of a comparison is accepted in an expression, where lists are protected. -/
def isAcceptedInExpression (comparison : Comparison) : Bool :=
  comparison.isNullCheck || comparison.isMultiValue || comparison.value.isAccepted

end Comparison

namespace Condition

theorem conforms_comparisonMatch {comparison : Comparison} {document : List (String × Term)}
    (written : comparisonMatch comparison = .ok document) :
    (Term.document document).data.conforms .demand = comparison.isAcceptedInMatch := by
  obtain ⟨column, operator, value⟩ := comparison
  unfold comparisonMatch at written
  dsimp only at written
  split at written
  case h_1 =>
    cases written
    rw [Term.data_entry, Term.data_constant, Value.conforms_entry]
    rfl
  case h_2 =>
    cases written
    rw [Term.data_entry, Term.data_apply, Term.data_constant, Value.conforms_demand _ _ (by decide)]
    simp [Comparison.isAcceptedInMatch, Comparison.isNullCheck]
  case h_3 =>
    cases written
    rw [Term.data_entry, Term.data_apply, Term.data_apply, Term.data_constant,
      Value.conforms_demand _ _ (by decide), Value.conforms_entry]
    simp [Comparison.isAcceptedInMatch, Comparison.isNullCheck, Grammar.demand, Value.hasParts,
      Value.hasBranches_of_ne]
  case h_4 | h_5 =>
    cases written
    rw [Term.data_entry, Term.data_apply, Value.conforms_demand _ _ (by decide)]
    rfl
  case h_6 notEq _ _ notIsnull notNotnull =>
    have applied {name : String} (plain : name ∉ ["$and", "$or", "$switch", "branches"]) :
        (Term.document [(column, Term.apply name (.constant value))]).data.conforms .demand =
          Comparison.isAcceptedInMatch ⟨column, operator, value⟩ := by
      rw [Term.data_entry, Term.data_apply, Term.data_constant, Value.conforms_demand _ _ plain]
      simp [Comparison.isAcceptedInMatch, Comparison.isNullCheck, bne, beq_false_of_ne notEq,
        beq_false_of_ne notIsnull, beq_false_of_ne notNotnull]
    split at written
    next => cases written
    next found named =>
      split at written
      next => cases written
      next =>
        cases written
        apply applied
        unfold matchOperator? at named
        split at named <;> cases named <;> decide

/-- A combination is accepted with its parts, and if it has any. -/
theorem conforms_combination {name : String} (combines : name = "$and" ∨ name = "$or")
    (parts : List Term) :
    (Term.document [(name, .array parts)]).data.conforms .demand =
      (!parts.isEmpty && (Term.array parts).data.conforms .demand) := by
  rw [Term.data_entry, Value.conforms_entry, Term.data_array]
  rcases combines with rfl | rfl <;>
    cases parts <;> simp [Grammar.demand, Value.hasParts, Value.isEmptyList]

mutual

/-- A match document is accepted exactly if its condition has no empty combination and its values are
accepted. -/
theorem conforms_toMatch : (condition : Condition) → (document : List (String × Term)) →
    condition.toMatch = .ok document →
    (Term.document document).data.conforms .demand =
      (condition.isFilled && condition.comparisons.all Comparison.isAcceptedInMatch)
  | .absent, _, written => by cases written
  | .simple comparison, document, written => by
    rw [toMatch] at written
    rw [conforms_comparisonMatch written, isFilled, comparisons]
    simp
  | .all children, _, written => by
    rw [toMatch] at written
    obtain ⟨parts, each, written⟩ := Attempt.bind_eq_ok.mp written
    cases written
    obtain ⟨sameLength, conforms⟩ := conforms_toMatches children parts each
    rw [conforms_combination (.inl rfl), conforms, sameLength, isFilled, comparisons, Bool.and_assoc]
  | .any children, _, written => by
    rw [toMatch] at written
    obtain ⟨parts, each, written⟩ := Attempt.bind_eq_ok.mp written
    cases written
    obtain ⟨sameLength, conforms⟩ := conforms_toMatches children parts each
    rw [conforms_combination (.inr rfl), conforms, sameLength, isFilled, comparisons, Bool.and_assoc]

theorem conforms_toMatches : (children : List Condition) → (parts : List Term) →
    toMatches children = .ok parts →
    parts.isEmpty = children.isEmpty ∧ (Term.array parts).data.conforms .demand =
      (areFilled children && (comparisonsOf children).all Comparison.isAcceptedInMatch)
  | [], _, written => by
    rw [toMatches] at written
    cases written
    exact ⟨rfl, rfl⟩
  | child :: rest, _, written => by
    rw [toMatches] at written
    obtain ⟨first, matched, written⟩ := Attempt.bind_eq_ok.mp written
    obtain ⟨others, each, written⟩ := Attempt.bind_eq_ok.mp written
    cases written
    refine ⟨rfl, ?_⟩
    have later := (conforms_toMatches rest others each).2
    rw [Term.data_array, Value.conforms] at later
    rw [Term.data_array, Value.conforms, Term.dataOf_cons, Value.conformEach, later,
      conforms_toMatch child first matched, areFilled, comparisonsOf, List.all_append]
    ac_rfl

end

theorem isAccepted_comparisonExpression {withPatterns : Bool} {comparison : Comparison} {term : Term}
    (written : comparisonExpression withPatterns comparison = .ok term) :
    term.isAccepted = comparison.isAcceptedInExpression := by
  obtain ⟨column, operator, value⟩ := comparison
  unfold comparisonExpression at written
  dsimp only at written
  split at written
  case h_5 | h_6 =>
    cases written
    rfl
  case h_7 notIn notNin _ _ notIsnull notNotnull =>
    split at written
    next => cases written
    next found named =>
      cases written
      have unprotected : found ≠ "$literal" := by
        unfold expressionOperator? at named
        split at named <;> cases named <;> decide
      simp [Comparison.isAcceptedInExpression, Comparison.isNullCheck, Comparison.isMultiValue,
        Value.isAccepted, beq_false_of_ne unprotected, beq_false_of_ne notIn,
        beq_false_of_ne notNin, beq_false_of_ne notIsnull, beq_false_of_ne notNotnull]
  all_goals
    split at written <;> cases written
    simp [negated, Value.hasBranches_of_ne, Term.isAccepted_fields, Value.isAccepted,
      Comparison.isAcceptedInExpression, Comparison.isNullCheck, Comparison.isMultiValue]

mutual

theorem isAccepted_toExpression (withPatterns : Bool) : (condition : Condition) → (term : Term) →
    condition.toExpression withPatterns = .ok term →
    term.isAccepted = condition.comparisons.all Comparison.isAcceptedInExpression
  | .absent, _, written => by cases written
  | .simple comparison, term, written => by
    rw [toExpression] at written
    rw [isAccepted_comparisonExpression written, comparisons]
    simp
  | .all children, _, written | .any children, _, written => by
    rw [toExpression] at written
    obtain ⟨parts, each, written⟩ := Attempt.bind_eq_ok.mp written
    cases written
    rw [comparisons, ← isAccepted_toExpressions withPatterns children parts each]
    simp

theorem isAccepted_toExpressions (withPatterns : Bool) : (children : List Condition) →
    (parts : List Term) → toExpressions withPatterns children = .ok parts →
    parts.all Term.isAccepted =
      (comparisonsOf children).all Comparison.isAcceptedInExpression
  | [], _, written => by
    rw [toExpressions] at written
    cases written
    rw [comparisonsOf]
    rfl
  | child :: rest, _, written => by
    rw [toExpressions] at written
    obtain ⟨first, expressed, written⟩ := Attempt.bind_eq_ok.mp written
    obtain ⟨others, each, written⟩ := Attempt.bind_eq_ok.mp written
    cases written
    rw [List.all_cons, isAccepted_toExpression withPatterns child first expressed,
      isAccepted_toExpressions withPatterns rest others each, comparisonsOf, List.all_append]

end

end Condition

/-- Whether the values along a chain of else-ifs are accepted. -/
def Branch.isAccepted : Branch → Bool
  | .last test consequent alternative =>
    test.comparisons.all Comparison.isAcceptedInExpression && consequent.isAccepted &&
      alternative.isAccepted
  | .chain test consequent next =>
    test.comparisons.all Comparison.isAcceptedInExpression && consequent.isAccepted &&
      next.isAccepted

namespace Staging

theorem isAccepted_conditional (test consequent alternative : Term) :
    (Term.apply "$cond" (Term.fields
      [("if", test), ("then", consequent), ("else", alternative)])).isAccepted =
        (test.isAccepted && consequent.isAccepted && alternative.isAccepted) := by
  rw [Term.isAccepted_apply, Term.isAccepted_fields (by simp)]
  simp [Value.hasBranches_of_ne, Bool.and_assoc]

theorem isAccepted_branch {withPatterns : Bool} {held : Branch} {term : Term}
    (written : branch withPatterns held = .ok term) : term.isAccepted = held.isAccepted := by
  induction held generalizing term with
  | last test consequent alternative =>
    rw [branch] at written
    obtain ⟨first, expressed, written⟩ := Attempt.bind_eq_ok.mp written
    obtain ⟨second, read, written⟩ := Attempt.bind_eq_ok.mp written
    obtain ⟨third, readElse, written⟩ := Attempt.bind_eq_ok.mp written
    cases written
    rw [isAccepted_conditional,
      Condition.isAccepted_toExpression _ test first (Attempt.inside_eq_ok.mp expressed),
      Value.isAccepted_formulaTerm (Attempt.inside_eq_ok.mp read),
      Value.isAccepted_formulaTerm (Attempt.inside_eq_ok.mp readElse), Branch.isAccepted]
  | chain test consequent next inductionHypothesis =>
    rw [branch] at written
    obtain ⟨first, expressed, written⟩ := Attempt.bind_eq_ok.mp written
    obtain ⟨second, read, written⟩ := Attempt.bind_eq_ok.mp written
    obtain ⟨third, nested, written⟩ := Attempt.bind_eq_ok.mp written
    cases written
    rw [isAccepted_conditional,
      Condition.isAccepted_toExpression _ test first (Attempt.inside_eq_ok.mp expressed),
      Value.isAccepted_formulaTerm (Attempt.inside_eq_ok.mp read),
      inductionHypothesis (Attempt.inside_eq_ok.mp nested), Branch.isAccepted]

end Staging

end StepQuery
