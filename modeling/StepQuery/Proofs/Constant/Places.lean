import StepQuery.Proofs.Attempt
import StepQuery.Proofs.Constant.Barren
import StepQuery.Query.Operation

/-!
The places where a constant enters a query: the value of a comparison in either language, the filling
of missing fields and both members of a replacement.  Each place is read directly, with the value as it
stands, and compared with what servers make of the query.  The two agree on every server exactly if the
value has no marks that the place lets through.
-/

namespace StepQuery

namespace Comparison

/-- The operator of either language that compares what is held with the value by their order. -/
def orderName? : String → Option String
  | "eq" => some "$eq"
  | "ne" => some "$ne"
  | "gt" => some "$gt"
  | "ge" | "from" => some "$gte"
  | "lt" => some "$lt"
  | "le" | "until" => some "$lte"
  | _ => none

/-- A match document writes equality without an operator, and so lets operators through. -/
def isPlainInMatch (comparison : Comparison) : Bool :=
  comparison.operator != "eq" || !comparison.value.isOperators

/-- An expression writes patterns as they are, protects texts that are compared by order and leaves
the members of lists alone. -/
def isPlainInExpression (comparison : Comparison) : Bool :=
  match comparison.operator with
  | "matches" | "notmatches" => comparison.value.isInert
  | operator => (orderName? operator).isNone || comparison.value.isLiteral

end Comparison

namespace Server

variable {Row : Type} (server : Server Row) (row : Row)

/-- What a comparison asks of what its column holds. -/
def asks (held : Option Value) (comparison : Comparison) : Bool :=
  match comparison.operator with
  | "in" => server.passes "$in" held comparison.value
  | "nin" => server.passes "$nin" held comparison.value
  | "matches" => server.passes "$regex" held comparison.value
  | "notmatches" => !server.passes "$regex" held comparison.value
  | "isnull" => server.passes "$eq" held .null
  | "notnull" => server.passes "$ne" held .null
  | operator => (Comparison.orderName? operator).any fun name =>
      server.passes name held comparison.value

/-- What a comparison comes to as a computation. -/
def computes (held : Option Value) (comparison : Comparison) : Option Value :=
  match comparison.operator with
  | "in" => server.operate "$in" [held, some comparison.value]
  | "nin" => server.operate "$not" [server.operate "$in" [held, some comparison.value]]
  | "matches" => server.operate "$regexMatch" [held, some comparison.value]
  | "notmatches" =>
    server.operate "$not" [server.operate "$regexMatch" [held, some comparison.value]]
  | "isnull" => server.operate "$eq" [held, some .null]
  | "notnull" => server.operate "$ne" [held, some .null]
  | operator => (Comparison.orderName? operator).bind fun name =>
      server.operate name [held, some comparison.value]

mutual

/-- Whether a row is what a condition asks for. -/
def asked : Condition → Bool
  | .absent => false
  | .simple comparison => server.asks (server.reach row comparison.column) comparison
  | .all children => (askedEach children).all id
  | .any children => (askedEach children).any id

def askedEach : List Condition → List Bool
  | [] => []
  | child :: rest => asked child :: askedEach rest

end

mutual

/-- What a condition comes to on a row as a computation. -/
def computed : Condition → Option Value
  | .absent => none
  | .simple comparison => server.computes (server.reach row comparison.column) comparison
  | .all children => server.operate "$and" (computedEach children)
  | .any children => server.operate "$or" (computedEach children)

def computedEach : List Condition → List (Option Value)
  | [] => []
  | child :: rest => computed child :: computedEach rest

end

/-- What becomes of what is held: the second member of the first pair whose first member equals it. -/
def replaced (held : Option Value) : List (Value × Value) → Option Value
  | [] => held
  | (searched, result) :: rest =>
    if Value.truth (server.operate "$eq" [held, some searched]) then some result
    else replaced held rest

end Server

namespace Condition

/-- On every server, the match document of a condition asks what the condition says. -/
def KeepsInMatch (condition : Condition) : Prop :=
  ∀ fields, condition.toMatch = .ok fields → ∀ (Row : Type) (server : Server Row) (row : Row),
    server.satisfies row (Term.document fields).data = server.asked row condition

/-- On every server, the expression of a condition comes to what the condition says. -/
def KeepsInExpression (condition : Condition) : Prop :=
  ∀ withPatterns term, condition.toExpression withPatterns = .ok term →
    ∀ (Row : Type) (server : Server Row) (row : Row),
      server.evaluate row term.data = some (server.computed row condition)

section Comparison

variable {Row : Type} {server : Server Row} {row : Row}

/-- The document of one comparison demands of its column what the comparison asks. -/
theorem meets_comparisonMatch {comparison : Comparison} {fields : List (String × Term)}
    (written : comparisonMatch comparison = .ok fields) (plain : comparison.isPlainInMatch) :
    ∃ demand, fields = [(comparison.column, demand)] ∧
      ∀ held, server.meets held demand.data = server.asks held comparison := by
  obtain ⟨column, operator, value⟩ := comparison
  unfold comparisonMatch at written
  dsimp only at written
  split at written
  -- Equality has no operator of its own in front of the value.
  · cases written
    have notOperators : value.isOperators = false := by simpa [Comparison.isPlainInMatch] using plain
    exact ⟨_, rfl, Server.meets_of_not_isOperators notOperators⟩
  · cases written
    exact ⟨_, rfl, fun held => Server.meets_apply (by decide) (by decide) held _⟩
  · cases written
    refine ⟨_, rfl, fun held => ?_⟩
    rw [Server.meets_not, Server.meets_apply (by decide) (by decide)]
    rfl
  · cases written
    exact ⟨_, rfl, fun held => Server.meets_apply (by decide) (by decide) held _⟩
  · cases written
    exact ⟨_, rfl, fun held => Server.meets_apply (by decide) (by decide) held _⟩
  · split at written
    · cases written
    · rename_i named
      split at written
      · cases written
      · cases written
        unfold matchOperator? at named
        split at named <;> cases named <;>
          exact ⟨_, rfl, fun held => Server.meets_apply (by decide) (by decide) held _⟩

variable (server row) in
/-- The comparisons by order are written and read in one way. -/
theorem ordered_forms {operator name : String} (named : Comparison.orderName? operator = some name)
    (column : String) (value : Value) :
    (∀ withPatterns, comparisonExpression withPatterns ⟨column, operator, value⟩ =
        .ok (Term.call name [Term.column column, Term.literal value])) ∧
      Comparison.isPlainInExpression ⟨column, operator, value⟩ = value.isLiteral ∧
      (∀ held, server.computes held ⟨column, operator, value⟩ =
        server.operate name [held, some value]) ∧
      ∀ term, server.evaluate row (Term.call name [Term.column column, term]).data =
        (server.evaluate row term.data).map fun read =>
          server.operate name [server.reach row column, read] := by
  unfold Comparison.orderName? at named
  split at named <;> cases named <;>
    exact ⟨fun _ => rfl, rfl, fun _ => rfl,
      Server.evaluate_pair (by decide) (by decide) (by decide) column⟩

theorem orderName?_of_expressionOperator? {operator name : String}
    (named : expressionOperator? operator = some name) :
    Comparison.orderName? operator = some name := by
  unfold expressionOperator? at named
  split at named <;> cases named <;> rfl

/-- The expression of one comparison comes to what the comparison computes. -/
theorem evaluate_comparisonExpression {comparison : Comparison} {withPatterns : Bool} {term : Term}
    (written : comparisonExpression withPatterns comparison = .ok term)
    (plain : comparison.isPlainInExpression) :
    server.evaluate row term.data =
      some (server.computes (server.reach row comparison.column) comparison) := by
  obtain ⟨column, operator, value⟩ := comparison
  have null : server.evaluate row Term.null.data = some (some .null) := by
    rw [Term.null, Term.data_constant]
    exact Server.evaluate_inert _ rfl
  unfold comparisonExpression at written
  dsimp only at written
  split at written
  · split at written
    · cases written
      exact Server.evaluate_membership column value
    · cases written
  · split at written
    · cases written
      rw [negated, Server.evaluate_negated, Server.evaluate_membership]
      rfl
    · cases written
  · split at written
    · cases written
      rw [Server.evaluate_regexMatch, Term.data_constant, Server.evaluate_inert value plain]
      rfl
    · cases written
  · split at written
    · cases written
      rw [negated, Server.evaluate_negated, Server.evaluate_regexMatch, Term.data_constant,
        Server.evaluate_inert value plain]
      rfl
    · cases written
  · cases written
    rw [Server.evaluate_pair (by decide) (by decide) (by decide), null]
    rfl
  · cases written
    rw [Server.evaluate_pair (by decide) (by decide) (by decide), null]
    rfl
  · split at written
    · cases written
    · rename_i found named
      cases written
      obtain ⟨_, kept, computes, evaluates⟩ :=
        ordered_forms server row (orderName?_of_expressionOperator? named) column value
      rw [kept] at plain
      rw [evaluates, computes, Server.evaluate_literal plain]
      rfl

end Comparison

section Exactness

theorem isPlainInMatch_of_keeps {comparison : Comparison}
    (unmarked : isMarked comparison.column = false)
    (keeps : KeepsInMatch (.simple comparison)) : comparison.isPlainInMatch := by
  obtain ⟨column, operator, value⟩ := comparison
  by_contra leaks
  obtain ⟨rfl, operators⟩ : operator = "eq" ∧ value.isOperators := by
    simpa [Comparison.isPlainInMatch] using leaks
  obtain ⟨answer, different⟩ := Server.exists_meets_ne_passes operators
  have same := keeps [(column, .constant value)] rfl Unit (Server.answering value answer) ()
  rw [Term.data_entry, Server.satisfies_entry unmarked, Term.data_constant] at same
  exact different same

theorem isPlainInExpression_of_keeps {comparison : Comparison}
    (keeps : KeepsInExpression (.simple comparison)) : comparison.isPlainInExpression := by
  obtain ⟨column, operator, value⟩ := comparison
  unfold Comparison.isPlainInExpression
  dsimp only
  have barren := Server.barren_singling value
  split
  · have same := keeps true _ rfl Unit (Server.singling value) ()
    rw [Server.evaluate_regexMatch, Term.data_constant] at same
    apply Server.isInert_of_evaluate barren
    exact Server.eq_of_operate_singling
      (same.trans (congrArg some (Server.operate_singling_self value "$regexMatch")))
  · have same := keeps true _ rfl Unit (Server.singling value) ()
    rw [negated, Server.evaluate_negated, Server.evaluate_regexMatch, Term.data_constant,
      Option.map_map] at same
    have computes : (Server.singling value).computed () (.simple ⟨column, "notmatches", value⟩) =
        some (.bool true) := by
      simp [Server.computed, Server.computes]
    -- The server takes a negated truth value for what it is.
    have unchanged : ∀ read, (Server.singling value).operate "$not"
        [(Server.singling value).operate "$regexMatch" [none, read]] =
          (Server.singling value).operate "$regexMatch" [none, read] := by
      simp
    apply Server.isInert_of_evaluate barren
    apply Server.eq_of_operate_singling
    rw [computes] at same
    simpa only [Function.comp_def, Server.reach_singling, unchanged] using same
  · cases named : Comparison.orderName? operator with
    | none => rfl
    | some name =>
      obtain ⟨written, _, computes, evaluates⟩ :=
        ordered_forms (Server.singling value) () named column value
      have same := keeps true _ (written true) Unit (Server.singling value) ()
      rw [evaluates, Server.computed, computes] at same
      apply Server.isLiteral_of_evaluate barren
      exact Server.eq_of_operate_singling
        (same.trans (congrArg some (Server.operate_singling_self value name)))

end Exactness

section Combination

mutual

/-- A condition whose comparisons are kept is kept. -/
theorem keepsInMatch_of_comparisons : (condition : Condition) →
    (∀ comparison ∈ condition.comparisons, KeepsInMatch (.simple comparison)) →
    KeepsInMatch condition
  | .absent, _ => by
    intro fields written
    rw [toMatch] at written
    cases written
  | .simple comparison, kept => by
    rw [comparisons] at kept
    exact kept comparison (List.mem_singleton_self _)
  | .all children, kept => by
    intro fields written Row server row
    rw [comparisons] at kept
    rw [toMatch, Attempt.bind_eq_ok] at written
    obtain ⟨demands, each, same⟩ := written
    cases same
    rw [Term.data_entry, Term.data_array, Server.satisfies_and, Server.asked,
      keepEachInMatch children kept each server row]
  | .any children, kept => by
    intro fields written Row server row
    rw [comparisons] at kept
    rw [toMatch, Attempt.bind_eq_ok] at written
    obtain ⟨demands, each, same⟩ := written
    cases same
    rw [Term.data_entry, Term.data_array, Server.satisfies_or, Server.asked,
      keepEachInMatch children kept each server row]

theorem keepEachInMatch : (children : List Condition) →
    (∀ comparison ∈ comparisonsOf children, KeepsInMatch (.simple comparison)) →
    ∀ {demands : List Term}, toMatches children = .ok demands →
    ∀ {Row : Type} (server : Server Row) (row : Row),
      server.satisfiesEach row (Term.dataOf demands) = server.askedEach row children
  | [], _, demands, written, Row, server, row => by
    rw [toMatches] at written
    cases written
    rw [Term.dataOf_nil, Server.satisfiesEach, Server.askedEach]
  | child :: rest, kept, demands, written, Row, server, row => by
    rw [comparisonsOf, List.forall_mem_append] at kept
    rw [toMatches, Attempt.bind_eq_ok] at written
    obtain ⟨first, firstWritten, written⟩ := written
    rw [Attempt.bind_eq_ok] at written
    obtain ⟨others, othersWritten, same⟩ := written
    cases same
    rw [Term.dataOf_cons, Server.satisfiesEach, Server.askedEach,
      keepsInMatch_of_comparisons child kept.1 first firstWritten Row server row,
      keepEachInMatch rest kept.2 othersWritten server row]

end

mutual

theorem keepsInExpression_of_comparisons : (condition : Condition) →
    (∀ comparison ∈ condition.comparisons, KeepsInExpression (.simple comparison)) →
    KeepsInExpression condition
  | .absent, _ => by
    intro withPatterns term written
    rw [toExpression] at written
    cases written
  | .simple comparison, kept => by
    rw [comparisons] at kept
    exact kept comparison (List.mem_singleton_self _)
  | .all children, kept => by
    intro withPatterns term written Row server row
    rw [comparisons] at kept
    rw [toExpression, Attempt.bind_eq_ok] at written
    obtain ⟨terms, each, same⟩ := written
    cases same
    rw [Server.evaluate_call (by decide) (by decide) (by decide),
      keepEachInExpression children kept each server row, Server.computed]
    rfl
  | .any children, kept => by
    intro withPatterns term written Row server row
    rw [comparisons] at kept
    rw [toExpression, Attempt.bind_eq_ok] at written
    obtain ⟨terms, each, same⟩ := written
    cases same
    rw [Server.evaluate_call (by decide) (by decide) (by decide),
      keepEachInExpression children kept each server row, Server.computed]
    rfl

theorem keepEachInExpression : (children : List Condition) →
    (∀ comparison ∈ comparisonsOf children, KeepsInExpression (.simple comparison)) →
    ∀ {withPatterns : Bool} {terms : List Term}, toExpressions withPatterns children = .ok terms →
    ∀ {Row : Type} (server : Server Row) (row : Row),
      server.evaluateEach row (Term.dataOf terms) = some (server.computedEach row children)
  | [], _, withPatterns, terms, written, Row, server, row => by
    rw [toExpressions] at written
    cases written
    rw [Term.dataOf_nil, Server.evaluateEach, Server.computedEach]
  | child :: rest, kept, withPatterns, terms, written, Row, server, row => by
    rw [comparisonsOf, List.forall_mem_append] at kept
    rw [toExpressions, Attempt.bind_eq_ok] at written
    obtain ⟨first, firstWritten, written⟩ := written
    rw [Attempt.bind_eq_ok] at written
    obtain ⟨others, othersWritten, same⟩ := written
    cases same
    rw [Term.dataOf_cons, Server.evaluateEach,
      keepsInExpression_of_comparisons child kept.1 withPatterns first firstWritten Row server row,
      keepEachInExpression rest kept.2 othersWritten server row, Server.computedEach]
    rfl

end

end Combination

end Condition

namespace Operation

/-- On every server, missing fields are filled with the value. -/
def FillsWith (value : Value) : Prop :=
  ∀ backend columns, ∃ stages,
    Staging.operationStages backend (.fillna columns value) = .ok stages ∧
    ∀ column ∈ Staging.names columns, ∀ (Row : Type) (server : Server Row) (row : Row),
      server.holdsAfter row column stages =
        some (Value.filled (some value) (server.reach row column))

/-- On every server, the first members are looked for and the second ones are put in their place. -/
def Replaces (pairs : List (Value × Value)) : Prop :=
  ∀ backend column, ∃ stages,
    Staging.operationStages backend (.replace column (some pairs)) = .ok stages ∧
    ∀ (Row : Type) (server : Server Row) (row : Row),
      server.holdsAfter row column stages = some (server.replaced (server.reach row column) pairs)

theorem holdsAfter_filling {Row : Type} (server : Server Row) (row : Row) {columns : ColumnList}
    {column : String} (within : column ∈ Staging.names columns) (term : String → Term) :
    server.holdsAfter row column [.addFields (Staging.forColumns columns term)] =
      server.evaluate row (term column).data := by
  rw [Server.holdsAfter, Staging.forColumns, Fields.get?_ofList_map _ within]

theorem fillsWith_iff (value : Value) : FillsWith value ↔ value.isLiteral := by
  constructor
  · intro fills
    obtain ⟨stages, written, holds⟩ := fills .usual (some ["column"])
    cases written
    have same := holds "column" (List.mem_singleton_self _) Unit (Server.singling value) ()
    rw [holdsAfter_filling _ _ (List.mem_singleton_self _), Server.evaluate_ifNull_eq] at same
    exact Server.isLiteral_of_evaluate (Server.barren_singling value) same
  · intro kept backend columns
    refine ⟨_, rfl, ?_⟩
    intro column within Row server row
    rw [holdsAfter_filling server row within]
    exact Server.evaluate_ifNull column (Server.evaluate_literal kept)

/-- The branch that a pair becomes. -/
def branchOf (column : String) (pair : Value × Value) : Term :=
  Term.branch (Term.call "$eq" [Term.column column, Term.literal pair.1]) (Term.literal pair.2)

theorem holdsAfter_replace {Row : Type} (server : Server Row) (row : Row) (column : String)
    (pairs : List (Value × Value)) :
    server.holdsAfter row column (Staging.replace column pairs) =
      server.choose row (some (server.reach row column))
        (Term.dataOf (pairs.map (branchOf column))) := by
  cases pairs with
  | nil => rw [Staging.replace, Server.holdsAfter, List.map_nil, Term.dataOf_nil, Server.choose]
  | cons pair rest =>
    have written : Staging.replace column (pair :: rest) = [.addFields
        [(column, Term.switch ((pair :: rest).map (branchOf column)) (Term.column column))]] := rfl
    rw [written, Server.holdsAfter, Fields.get?_cons, if_pos rfl, ← Server.evaluate_column,
      ← Server.evaluate_switch]

theorem choose_branchOf {Row : Type} (server : Server Row) (row : Row) (column : String)
    (pair : Value × Value) (otherwise : Option (Option Value)) (rest : List Value) :
    server.choose row otherwise ((branchOf column pair).data :: rest) =
      (server.evaluate row (Term.literal pair.1).data).bind fun searched =>
        if Value.truth (server.operate "$eq" [server.reach row column, searched]) then
          server.evaluate row (Term.literal pair.2).data
        else server.choose row otherwise rest := by
  rw [branchOf, Server.choose_branch, Server.evaluate_pair (by decide) (by decide) (by decide),
    Option.bind_map]
  rfl

/-- Pairs of kept values are looked for one after the other. -/
theorem choose_pairs {Row : Type} (server : Server Row) (row : Row) (column : String)
    {pairs : List (Value × Value)} (kept : ∀ pair ∈ pairs, pair.1.isLiteral ∧ pair.2.isLiteral) :
    server.choose row (some (server.reach row column)) (Term.dataOf (pairs.map (branchOf column))) =
      some (server.replaced (server.reach row column) pairs) := by
  induction pairs with
  | nil => rw [List.map_nil, Term.dataOf_nil, Server.choose, Server.replaced]
  | cons pair rest inductionHypothesis =>
    obtain ⟨⟨searched, result⟩, others⟩ := List.forall_mem_cons.mp kept
    rw [List.map_cons, Term.dataOf_cons, choose_branchOf, Server.evaluate_literal searched,
      Server.evaluate_literal result, inductionHypothesis others, Server.replaced, Option.bind_some]
    split <;> rfl

theorem replaces_of_isLiteral {pairs : List (Value × Value)}
    (kept : ∀ pair ∈ pairs, pair.1.isLiteral ∧ pair.2.isLiteral) : Replaces pairs := by
  intro backend column
  refine ⟨_, rfl, ?_⟩
  intro Row server row
  rw [Option.getD_some, holdsAfter_replace, choose_pairs server row column kept]

theorem replaces_singleton_iff (pair : Value × Value) :
    Replaces [pair] ↔ pair.1.isLiteral ∧ pair.2.isLiteral := by
  constructor
  · intro replaces
    obtain ⟨stages, written, holds⟩ := replaces .usual "column"
    cases written
    have barren := Server.barren_singling pair.1
    have same := holds Unit (Server.singling pair.1) ()
    rw [Option.getD_some, holdsAfter_replace, List.map_singleton, Term.dataOf_cons, Term.dataOf_nil,
      choose_branchOf, Server.reach_singling, Server.replaced, Server.operate_singling_self,
      Option.bind_eq_some_iff] at same
    obtain ⟨searched, read, chosen⟩ := same
    rw [Server.operate_singling_pair] at chosen
    by_cases found : searched = some pair.1
    · have result : (Server.singling pair.1).evaluate () (Term.literal pair.2).data =
          some (some pair.2) := by
        simpa [found, Value.truth] using chosen
      subst found
      exact ⟨Server.isLiteral_of_evaluate barren read, Server.isLiteral_of_evaluate barren result⟩
    · simp [found, Value.truth, Server.choose] at chosen
  · intro kept
    exact replaces_of_isLiteral (List.forall_mem_singleton.mpr kept)

end Operation

/-- A value is kept by the query that it enters, on every server, exactly if it has no marks that its
place lets through; and conditions and replacements put together from kept ones are kept. -/
theorem constant_kept_iff (value : Value) :
    (∀ column operator, isMarked column = false →
      ((Condition.simple ⟨column, operator, value⟩).KeepsInMatch ↔
        Comparison.isPlainInMatch ⟨column, operator, value⟩)) ∧
    (∀ column operator, (Condition.simple ⟨column, operator, value⟩).KeepsInExpression ↔
      Comparison.isPlainInExpression ⟨column, operator, value⟩) ∧
    (Operation.FillsWith value ↔ value.isLiteral) ∧
    (∀ result, Operation.Replaces [(value, result)] ↔ value.isLiteral ∧ result.isLiteral) ∧
    (∀ condition : Condition,
      (∀ comparison ∈ condition.comparisons, (Condition.simple comparison).KeepsInMatch) →
        condition.KeepsInMatch) ∧
    (∀ condition : Condition,
      (∀ comparison ∈ condition.comparisons, (Condition.simple comparison).KeepsInExpression) →
        condition.KeepsInExpression) ∧
    ∀ pairs, (∀ pair ∈ pairs, Operation.Replaces [pair]) → Operation.Replaces pairs := by
  refine ⟨?_, ?_, Operation.fillsWith_iff value,
    fun result => Operation.replaces_singleton_iff (value, result),
    Condition.keepsInMatch_of_comparisons, Condition.keepsInExpression_of_comparisons, ?_⟩
  · intro column operator unmarked
    refine ⟨Condition.isPlainInMatch_of_keeps unmarked, ?_⟩
    intro plain fields written Row server row
    obtain ⟨demand, rfl, meets⟩ := Condition.meets_comparisonMatch written plain
    rw [Term.data_entry, Server.satisfies_entry unmarked, meets, Server.asked]
  · intro column operator
    refine ⟨Condition.isPlainInExpression_of_keeps, ?_⟩
    intro plain withPatterns term written Row server row
    rw [Condition.evaluate_comparisonExpression written plain, Server.computed]
  · intro pairs replace
    apply Operation.replaces_of_isLiteral
    intro pair within
    exact (Operation.replaces_singleton_iff pair).mp (replace pair within)

section Sample

/-- Texts are compared with texts, and a pattern matches the text that it is. -/
def sampleServer : Server (Fields Value) where
  reach row path := row.get? path
  passes
    | "$eq", some (.text held), .text operand => held == operand
    | "$ne", some (.text held), .text operand => held != operand
    | _, _, _ => false
  operate
    | "$regexMatch", [some (.text input), some (.text pattern)] => some (.bool (input == pattern))
    | "$eq", [some (.text held), some (.text other)] => some (.bool (held == other))
    | _, _ => none

def sampleRow : Fields Value := [("name", .text "ana"), ("nick", .text "ana")]

/-- A value with operators in a match document, a marked pattern in an expression, and marks within the
lists and objects that fields are filled with or replaced by: none is what it comes to. -/
theorem marked_constants_not_kept :
    (∃ fields,
      Condition.toMatch (.simple ⟨"name", "eq", .map [("$ne", .text "bob")]⟩) = .ok fields ∧
      sampleServer.satisfies sampleRow (Term.document fields).data = true ∧
      sampleServer.asked sampleRow (.simple ⟨"name", "eq", .map [("$ne", .text "bob")]⟩) = false) ∧
    (∃ term, Condition.toExpression true (.simple ⟨"name", "matches", .text "$nick"⟩) = .ok term ∧
      sampleServer.evaluate sampleRow term.data = some (some (.bool true)) ∧
      sampleServer.computed sampleRow (.simple ⟨"name", "matches", .text "$nick"⟩) =
        some (.bool false)) ∧
    (∃ stages, Staging.operationStages .usual
        (.fillna (some ["city"]) (.list [.text "$name"])) = .ok stages ∧
      sampleServer.holdsAfter sampleRow "city" stages = some (some (.list [.text "ana"])) ∧
      Value.filled (some (.list [.text "$name"])) (sampleServer.reach sampleRow "city") =
        some (.list [.text "$name"])) ∧
    ∃ stages, Staging.operationStages .usual
        (.replace "name" (some [(.text "ana", .map [("$literal", .null)])])) = .ok stages ∧
      sampleServer.holdsAfter sampleRow "name" stages = some (some .null) ∧
      sampleServer.replaced (sampleServer.reach sampleRow "name")
        [(.text "ana", .map [("$literal", .null)])] = some (.map [("$literal", .null)]) := by
  have name : Value.text "$name" = (Term.column "name").data := by
    rw [Term.column, Term.text, Term.data_constant]
    rfl
  have nick : Value.text "$nick" = (Term.column "nick").data := by
    rw [Term.column, Term.text, Term.data_constant]
    rfl
  refine ⟨⟨_, rfl, ?_, ?_⟩, ⟨_, rfl, ?_, ?_⟩, ⟨_, rfl, ?_, ?_⟩, ⟨_, rfl, ?_, ?_⟩⟩
  · decide +kernel
  · decide +kernel
  · rw [Server.evaluate_regexMatch, Term.data_constant, nick, Server.evaluate_column]
    rfl
  · rfl
  · rw [Operation.holdsAfter_filling sampleServer sampleRow (List.mem_singleton_self _),
      Server.evaluate_ifNull_eq]
    change sampleServer.evaluate sampleRow (.list [.text "$name"]) = _
    rw [Server.evaluate, Server.evaluateEach, Server.evaluateEach, name, Server.evaluate_column]
    rfl
  · rfl
  · have result : sampleServer.evaluate sampleRow (Term.literal (.map [("$literal", .null)])).data =
        some (some .null) := Server.evaluate_protected .null
    rw [Option.getD_some, Operation.holdsAfter_replace, List.map_singleton, Term.dataOf_cons,
      Operation.choose_branchOf, Server.evaluate_literal rfl, result]
    rfl
  · rfl

end Sample

end StepQuery
