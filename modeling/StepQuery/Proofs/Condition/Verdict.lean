import StepQuery.Proofs.Condition.Editing
import StepQuery.Proofs.Condition.Evaluation
import StepQuery.Query.Condition

/-!
What the two forms of a condition come to on a flat document, whatever its columns hold or lack.  A
comparison has a truth in each of the two languages, and a condition combines those of its comparisons
in the same way in both.  Comparisons are read one family of operators after the other, combinations by
induction on the condition.
-/

namespace StepQuery

namespace Comparison

def operators : List String :=
  ["eq", "ne", "gt", "ge", "lt", "le", "from", "until", "in", "nin", "matches", "notmatches",
    "isnull", "notnull"]

/-- What an operator asks of the order of what is held and the value. -/
def orderTest? : String → Option (Ordering → Bool)
  | "eq" => some Ordering.isEq
  | "ne" => some Ordering.isNe
  | "gt" => some Ordering.isGT
  | "ge" | "from" => some Ordering.isGE
  | "lt" => some Ordering.isLT
  | "le" | "until" => some Ordering.isLE
  | _ => none

/-- A known operator with a value that suits it: a list of scalars for membership, and otherwise a
scalar, which as a pattern does not read as a path. -/
structure Regular (comparison : Comparison) : Prop where
  known : comparison.operator ∈ operators
  scalar : comparison.isMultiValue = false → comparison.value.isScalar
  scalars : comparison.isMultiValue →
    ∃ items, comparison.value = .list items ∧ ∀ item ∈ items, item.isScalar
  pattern : comparison.operator = "matches" ∨ comparison.operator = "notmatches" →
    ∀ content, comparison.value = .text content → isMarked content = false

/-- The values that what is held is compared with. -/
def operands (comparison : Comparison) : List Value :=
  match comparison.value with
  | .list items => items
  | value => if comparison.isNullCheck then [] else [value]

theorem operands_of_isScalar {comparison : Comparison} (scalar : comparison.value.isScalar)
    (compared : comparison.isNullCheck = false) : comparison.operands = [comparison.value] := by
  unfold operands
  split
  · rename_i items isList
    rw [isList] at scalar
    cases scalar
  · rw [if_neg (by simp [compared])]

/-- A regular comparison orders, looks for a member, matches a pattern or looks for null. -/
theorem Regular.cases {column operator : String} {value : Value}
    (regular : Regular ⟨column, operator, value⟩) :
    (∃ test, orderTest? operator = some test ∧ value.isScalar ∧
        operands ⟨column, operator, value⟩ = [value]) ∨
      (∃ items, value = .list items ∧ (operator = "in" ∨ operator = "nin")) ∨
      ((operator = "matches" ∨ operator = "notmatches") ∧ value.isScalar ∧
        ∀ content, value = .text content → isMarked content = false) ∨
      operator = "isnull" ∨ operator = "notnull" := by
  obtain ⟨known, scalar, scalars, pattern⟩ := regular
  simp only [operators, List.mem_cons, List.not_mem_nil, or_false] at known
  rcases known with rfl | rfl | rfl | rfl | rfl | rfl | rfl | rfl | rfl | rfl | rfl | rfl | rfl | rfl
  -- The operators that compare by order stand first.
  iterate 8 exact .inl ⟨_, rfl, scalar rfl, operands_of_isScalar (scalar rfl) rfl⟩
  · obtain ⟨items, isList, _⟩ := scalars rfl
    exact .inr (.inl ⟨items, isList, .inl rfl⟩)
  · obtain ⟨items, isList, _⟩ := scalars rfl
    exact .inr (.inl ⟨items, isList, .inr rfl⟩)
  · exact .inr (.inr (.inl ⟨.inl rfl, scalar rfl, pattern (.inl rfl)⟩))
  · exact .inr (.inr (.inl ⟨.inr rfl, scalar rfl, pattern (.inr rfl)⟩))
  · exact .inr (.inr (.inr (.inl rfl)))
  · exact .inr (.inr (.inr (.inr rfl)))

section Truth

variable (database : Database) (document : FlatDocument)

/-- The truth of a comparison in a match document. -/
def matchTruth (comparison : Comparison) : Bool :=
  let held := document.at? comparison.column
  match comparison.operator, comparison.value with
  | "eq", value => database.equals held value
  | "ne", value => !database.equals held value
  | "in", .list items => items.any fun item => database.equals held item
  | "nin", .list items => !items.any fun item => database.equals held item
  | "matches", pattern => database.matched pattern held
  | "notmatches", pattern => !database.matched pattern held
  | "isnull", _ => database.equals held .null
  | "notnull", _ => !database.equals held .null
  | operator, value => (orderTest? operator).any fun test => database.ordered held value test

/-- The truth of a comparison in an expression. -/
def expressionTruth (comparison : Comparison) : Bool :=
  let held := document.at? comparison.column
  match comparison.operator, comparison.value with
  | "in", .list items => items.any fun item => (database.compare held (some item)).isEq
  | "nin", .list items => !items.any fun item => (database.compare held (some item)).isEq
  | "matches", pattern => database.matched pattern held
  | "notmatches", pattern => !database.matched pattern held
  | "isnull", _ => (database.compare held (some .null)).isEq
  | "notnull", _ => (database.compare held (some .null)).isNe
  | operator, value =>
    (orderTest? operator).any fun test => test (database.compare held (some value))

end Truth

end Comparison

namespace Condition

mutual

/-- No condition is missing, and no combination is empty. -/
def isFilled : Condition → Bool
  | .absent => false
  | .simple _ => true
  | .all children => !children.isEmpty && areFilled children
  | .any children => !children.isEmpty && areFilled children

def areFilled : List Condition → Bool
  | [] => true
  | child :: rest => isFilled child && areFilled rest

end

/-- A condition has both its forms, and each comes to its truth value. -/
def ComesTo (database : Database) (document : FlatDocument) (condition : Condition)
    (matched expressed : Bool) : Prop :=
  ∃ fields term, condition.toMatch = .ok fields ∧ condition.toExpression true = .ok term ∧
    database.satisfies document (Term.document fields).data = some matched ∧
    database.evaluate document term.data = some (some (.bool expressed))

section Comparison

variable {database : Database} {document : FlatDocument} {column operator : String} {value : Value}

theorem comesTo_simple {demand term : Term} {matched expressed : Bool} (path : isFieldPath column)
    (matching : toMatch (.simple ⟨column, operator, value⟩) = .ok [(column, demand)])
    (expression : toExpression true (.simple ⟨column, operator, value⟩) = .ok term)
    (meets : database.meets (document.at? column) demand.data = some matched)
    (evaluates : database.evaluate document term.data = some (some (.bool expressed))) :
    ComesTo database document (.simple ⟨column, operator, value⟩) matched expressed := by
  refine ⟨_, _, matching, expression, ?_, evaluates⟩
  rw [Term.data_entry, Database.satisfies_entry path]
  exact meets

theorem comesTo_ordered {test : Ordering → Bool}
    (asked : Comparison.orderTest? operator = some test) (path : isFieldPath column)
    (scalar : value.isScalar) :
    ComesTo database document (.simple ⟨column, operator, value⟩)
      (Comparison.matchTruth database document ⟨column, operator, value⟩)
      (Comparison.expressionTruth database document ⟨column, operator, value⟩) := by
  have evaluates : ∀ {name : String}, Database.comparison? name = some test →
      database.evaluate document (Term.call name [Term.column column, Term.literal value]).data =
        some (some (.bool (test (database.compare (document.at? column) (some value))))) := by
    intro name named
    rw [Term.data_call, Term.dataOf_cons, Term.dataOf_cons, Term.dataOf_nil]
    exact Database.evaluate_comparison named (Database.evaluate_column path)
      (Database.evaluate_literal scalar)
  have meets : ∀ {name : String}, isMarked name → name ≠ "$not" →
      database.meets (document.at? column) (Term.apply name (.constant value)).data =
        database.demanded (document.at? column) name value := by
    intro name marked other
    rw [Term.data_apply, Term.data_constant, Database.meets_operator marked other]
  unfold Comparison.orderTest? at asked
  split at asked <;> cases asked
  -- Equality is the one comparison that a match document writes without an operator.
  · exact comesTo_simple path rfl rfl (Database.meets_scalar scalar) (evaluates rfl)
  all_goals exact comesTo_simple path rfl rfl (meets (by decide) (by decide)) (evaluates rfl)

theorem evaluate_membership {items : List Value} (path : isFieldPath column) :
    database.evaluate document (Term.call "$in"
      [Term.column column, Term.apply "$literal" (.constant (.list items))]).data =
        some (some (.bool (items.any fun item =>
          (database.compare (document.at? column) (some item)).isEq))) := by
  have operator : isMarked "$in" := by decide
  have protection : isMarked "$literal" := by decide
  simp [Database.evaluate, Database.apply, Database.evaluate_column path, operator, protection]

theorem comesTo_in {items : List Value} (path : isFieldPath column) :
    ComesTo database document (.simple ⟨column, "in", .list items⟩)
      (items.any fun item => database.equals (document.at? column) item)
      (items.any fun item => (database.compare (document.at? column) (some item)).isEq) := by
  refine comesTo_simple path rfl rfl ?_ (evaluate_membership path)
  rw [Term.data_apply, Database.meets_operator (by decide) (by decide)]
  rfl

theorem comesTo_nin {items : List Value} (path : isFieldPath column) :
    ComesTo database document (.simple ⟨column, "nin", .list items⟩)
      (!items.any fun item => database.equals (document.at? column) item)
      (!items.any fun item => (database.compare (document.at? column) (some item)).isEq) := by
  refine comesTo_simple path rfl rfl ?_ (Database.evaluate_not (evaluate_membership path))
  rw [Term.data_apply, Database.meets_operator (by decide) (by decide)]
  rfl

theorem evaluate_pattern (path : isFieldPath column) (scalar : value.isScalar)
    (plain : ∀ content, value = .text content → isMarked content = false) :
    database.evaluate document (Term.apply "$regexMatch"
      (Term.fields [("input", Term.column column), ("regex", .constant value)])).data =
        some (some (.bool (database.matched value (document.at? column)))) := by
  have operator : isMarked "$regexMatch" := by decide
  rw [Term.data_apply, Term.data_pair (by decide +kernel), Term.data_constant]
  simp [Database.evaluate, Database.apply, Database.evaluate_column path,
    Database.evaluate_scalar scalar plain, operator]

theorem comesTo_matches (path : isFieldPath column) (scalar : value.isScalar)
    (plain : ∀ content, value = .text content → isMarked content = false) :
    ComesTo database document (.simple ⟨column, "matches", value⟩)
      (database.matched value (document.at? column))
      (database.matched value (document.at? column)) := by
  refine comesTo_simple path rfl rfl ?_ (evaluate_pattern path scalar plain)
  rw [Term.data_apply, Database.meets_operator (by decide) (by decide)]
  rfl

theorem comesTo_notmatches (path : isFieldPath column) (scalar : value.isScalar)
    (plain : ∀ content, value = .text content → isMarked content = false) :
    ComesTo database document (.simple ⟨column, "notmatches", value⟩)
      (!database.matched value (document.at? column))
      (!database.matched value (document.at? column)) := by
  refine comesTo_simple path rfl rfl ?_ (Database.evaluate_not (evaluate_pattern path scalar plain))
  rw [Term.data_apply, Database.meets_not, Term.data_apply,
    Database.meets_operator (by decide) (by decide)]
  rfl

theorem evaluate_null {name : String} {test : Ordering → Bool}
    (named : Database.comparison? name = some test) (path : isFieldPath column) :
    database.evaluate document (Term.call name [Term.column column, Term.null]).data =
      some (some (.bool (test (database.compare (document.at? column) (some .null))))) := by
  have null : database.evaluate document Term.null.data = some (some .null) :=
    Database.evaluate_scalar rfl nofun
  rw [Term.data_call, Term.dataOf_cons, Term.dataOf_cons, Term.dataOf_nil]
  exact Database.evaluate_comparison named (Database.evaluate_column path) null

theorem comesTo_isnull (path : isFieldPath column) :
    ComesTo database document (.simple ⟨column, "isnull", value⟩)
      (database.equals (document.at? column) .null)
      (database.compare (document.at? column) (some .null)).isEq := by
  have named : Database.comparison? "$eq" = some Ordering.isEq := rfl
  refine comesTo_simple path rfl rfl ?_ (evaluate_null named path)
  rw [Term.data_apply, Database.meets_operator (by decide) (by decide)]
  rfl

theorem comesTo_notnull (path : isFieldPath column) :
    ComesTo database document (.simple ⟨column, "notnull", value⟩)
      (!database.equals (document.at? column) .null)
      (database.compare (document.at? column) (some .null)).isNe := by
  have named : Database.comparison? "$ne" = some Ordering.isNe := rfl
  refine comesTo_simple path rfl rfl ?_ (evaluate_null named path)
  rw [Term.data_apply, Database.meets_operator (by decide) (by decide)]
  rfl

theorem comesTo_comparison {comparison : Comparison} (regular : comparison.Regular)
    (path : isFieldPath comparison.column) :
    ComesTo database document (.simple comparison) (comparison.matchTruth database document)
      (comparison.expressionTruth database document) := by
  obtain ⟨column, operator, value⟩ := comparison
  obtain ⟨test, asked, scalar, _⟩ | ⟨items, rfl, rfl | rfl⟩ | ⟨rfl | rfl, scalar, plain⟩ |
    rfl | rfl := regular.cases
  · exact comesTo_ordered asked path scalar
  · exact comesTo_in path
  · exact comesTo_nin path
  · exact comesTo_matches path scalar plain
  · exact comesTo_notmatches path scalar plain
  · exact comesTo_isnull path
  · exact comesTo_notnull path

end Comparison

section Combination

variable (database : Database) (document : FlatDocument)

/-- Each of several conditions has both its forms, and they come to their truth values. -/
def EachComesTo (conditions : List Condition) (matched expressed : List Bool) : Prop :=
  ∃ demands terms, toMatches conditions = .ok demands ∧ toExpressions true conditions = .ok terms ∧
    database.satisfiesEach document (Term.dataOf demands) = some matched ∧
    database.evaluateEach document (Term.dataOf terms) =
      some (expressed.map fun truth => some (.bool truth))

variable {database document}

theorem eachComesTo_nil : EachComesTo database document [] [] [] := by
  refine ⟨[], [], rfl, rfl, ?_, ?_⟩
  · rw [Term.dataOf_nil, Database.satisfiesEach]
  · rw [Term.dataOf_nil, Database.evaluateEach, List.map_nil]

theorem EachComesTo.cons {condition : Condition} {conditions : List Condition}
    {matched expressed : Bool} {othersMatched othersExpressed : List Bool}
    (first : ComesTo database document condition matched expressed)
    (later : EachComesTo database document conditions othersMatched othersExpressed) :
    EachComesTo database document (condition :: conditions) (matched :: othersMatched)
      (expressed :: othersExpressed) := by
  obtain ⟨fields, term, matching, expression, satisfied, evaluated⟩ := first
  obtain ⟨demands, terms, matchings, expressions, eachSatisfied, eachEvaluated⟩ := later
  refine ⟨.document fields :: demands, term :: terms, ?_, ?_, ?_, ?_⟩
  · rw [toMatches, matching, matchings]
    rfl
  · rw [toExpressions, expression, expressions]
    rfl
  · rw [Term.dataOf_cons, Database.satisfiesEach, satisfied, eachSatisfied]
    rfl
  · rw [Term.dataOf_cons, Database.evaluateEach, evaluated, eachEvaluated]
    rfl

theorem comesTo_all {children : List Condition} {matched expressed : List Bool}
    (each : EachComesTo database document children matched expressed) (given : matched ≠ []) :
    ComesTo database document (.all children) (matched.all id) (expressed.all id) := by
  obtain ⟨demands, terms, matchings, expressions, satisfied, evaluated⟩ := each
  refine ⟨[("$and", .array demands)], Term.call "$and" terms, ?_, ?_, ?_, ?_⟩
  · rw [toMatch, matchings]
    rfl
  · rw [toExpression, expressions]
    rfl
  · rw [Term.data_entry, Term.data_array]
    exact Database.satisfies_and satisfied given
  · rw [Term.data_call]
    exact Database.evaluate_and evaluated

theorem comesTo_any {children : List Condition} {matched expressed : List Bool}
    (each : EachComesTo database document children matched expressed) (given : matched ≠ []) :
    ComesTo database document (.any children) (matched.any id) (expressed.any id) := by
  obtain ⟨demands, terms, matchings, expressions, satisfied, evaluated⟩ := each
  refine ⟨[("$or", .array demands)], Term.call "$or" terms, ?_, ?_, ?_, ?_⟩
  · rw [toMatch, matchings]
    rfl
  · rw [toExpression, expressions]
    rfl
  · rw [Term.data_entry, Term.data_array]
    exact Database.satisfies_or satisfied given
  · rw [Term.data_call]
    exact Database.evaluate_or evaluated

theorem truths_ne_nil {children : List Condition} (filled : (!children.isEmpty) = true)
    (valuation : Comparison → Bool) : truths valuation children ≠ [] := by
  cases children with
  | nil => cases filled
  | cons child rest => rw [truths]; exact List.cons_ne_nil _ _

mutual

/-- Both forms of a condition combine the truths of its comparisons. -/
theorem comesTo_truth : (condition : Condition) → condition.isFilled →
    (∀ comparison ∈ condition.comparisons,
      comparison.Regular ∧ isFieldPath comparison.column) →
    ComesTo database document condition
      (condition.truth (Comparison.matchTruth database document))
      (condition.truth (Comparison.expressionTruth database document))
  | .absent, filled, _ => by cases filled
  | .simple comparison, _, suits => by
    rw [comparisons] at suits
    obtain ⟨regular, path⟩ := suits comparison (List.mem_singleton_self _)
    rw [truth, truth]
    exact comesTo_comparison regular path
  | .all children, filled, suits => by
    rw [isFilled, Bool.and_eq_true] at filled
    rw [comparisons] at suits
    rw [truth, truth]
    exact comesTo_all (eachComesTo_truths children filled.2 suits) (truths_ne_nil filled.1 _)
  | .any children, filled, suits => by
    rw [isFilled, Bool.and_eq_true] at filled
    rw [comparisons] at suits
    rw [truth, truth]
    exact comesTo_any (eachComesTo_truths children filled.2 suits) (truths_ne_nil filled.1 _)

theorem eachComesTo_truths : (children : List Condition) → areFilled children →
    (∀ comparison ∈ comparisonsOf children,
      comparison.Regular ∧ isFieldPath comparison.column) →
    EachComesTo database document children
      (truths (Comparison.matchTruth database document) children)
      (truths (Comparison.expressionTruth database document) children)
  | [], _, _ => by
    rw [truths, truths]
    exact eachComesTo_nil
  | child :: rest, filled, suits => by
    rw [areFilled, Bool.and_eq_true] at filled
    rw [comparisonsOf, List.forall_mem_append] at suits
    rw [truths, truths]
    exact .cons (comesTo_truth child filled.1 suits.1) (eachComesTo_truths rest filled.2 suits.2)

end

end Combination

section Valuation

mutual

/-- A condition has the same truth under two valuations that agree on its comparisons. -/
theorem truth_congr {first second : Comparison → Bool} : (condition : Condition) →
    (∀ comparison ∈ condition.comparisons, first comparison = second comparison) →
    condition.truth first = condition.truth second
  | .absent, _ => by rw [truth, truth]
  | .simple comparison, same => by
    rw [comparisons] at same
    rw [truth, truth, same comparison (List.mem_singleton_self _)]
  | .all children, same => by
    rw [comparisons] at same
    rw [truth, truth, truths_congr children same]
  | .any children, same => by
    rw [comparisons] at same
    rw [truth, truth, truths_congr children same]

theorem truths_congr {first second : Comparison → Bool} : (children : List Condition) →
    (∀ comparison ∈ comparisonsOf children, first comparison = second comparison) →
    truths first children = truths second children
  | [], _ => by rw [truths, truths]
  | child :: rest, same => by
    rw [comparisonsOf, List.forall_mem_append] at same
    rw [truths, truths, truth_congr child same.1, truths_congr rest same.2]

end

end Valuation

end Condition

end StepQuery
