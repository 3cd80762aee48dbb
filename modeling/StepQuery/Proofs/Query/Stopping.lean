import StepQuery.Expression.Evaluation
import StepQuery.Proofs.Attempt
import StepQuery.Proofs.Number.Conversion
import StepQuery.Proofs.Query.Stages
import StepQuery.Template.Basic
import StepQuery.Template.Interpolation

/-!
Where making a query stops.  A failure is a refusal with its places, or it is a number without a
decimal form, and then nothing is refused: the work stops where the number was met.  Only one parameter
is ever asked for its decimal form, the limit of a top step, and so a query stops exactly at the first
such limit that is not finite, everything before it having gone well.
-/

namespace StepQuery

open Attempt (Settles settles_ok settles_fail settles_inside settles_bind)

/-- The floating-point number that a value comes to as a limit; whole numbers come to none. -/
def Value.floating? : Value → Option Float
  | .single number => some number.toFloat
  | .double number => some number
  | .decimal number => some number.toFloat
  | .text content =>
    (Casting.decimal? content).bind fun number =>
      if number.isInteger then none else some number.toFloat
  | _ => none

/-- The limit of a top step. -/
def Operation.limit? : Operation → Option Value
  | .top _ _ _ limit => some limit
  | _ => none

namespace Casting

theorem floatInteger_eq_notFinite {value number : Float} :
    floatInteger value = .error (.notFinite number) ↔ value = number ∧ number.isFinite = false := by
  unfold floatInteger
  split
  next absent =>
    have endless := Digits.ofFloat?_eq_none_iff.mp absent
    constructor
    · intro stopped
      cases stopped
      exact ⟨rfl, endless⟩
    · rintro ⟨rfl, _⟩
      rfl
  next digits found =>
    constructor
    · intro stopped
      dsimp only at stopped
      split at stopped <;> cases stopped
    · rintro ⟨rfl, endless⟩
      rw [Digits.ofFloat?_eq_none_iff.mpr endless] at found
      cases found

theorem integer_eq_notFinite {value : Value} {number : Float} :
    integer value = .error (.notFinite number) ↔
      value.floating? = some number ∧ number.isFinite = false := by
  cases value with
  | single held | double held | decimal held =>
    exact floatInteger_eq_notFinite.trans (by simp [Value.floating?])
  | text content =>
    unfold integer Casting.number Value.floating?
    dsimp only
    split
    next unread =>
      rw [unread]
      exact ⟨nofun, nofun⟩
    next held read =>
      rw [read, Option.bind_some]
      by_cases whole : held.isInteger = true
      · rw [if_pos whole, if_pos whole]
        exact ⟨nofun, nofun⟩
      · simpa [whole] using floatInteger_eq_notFinite
  | _ => exact ⟨nofun, nofun⟩

end Casting

namespace Condition

theorem settles_comparisonMatch (comparison : Comparison) : Settles (comparisonMatch comparison) := by
  unfold comparisonMatch
  dsimp only
  split
  case h_6 =>
    split
    · exact settles_fail _
    · split
      · exact settles_fail _
      · exact settles_ok _
  all_goals exact settles_ok _

theorem settles_comparisonExpression (withPatterns : Bool) (comparison : Comparison) :
    Settles (comparisonExpression withPatterns comparison) := by
  unfold comparisonExpression
  dsimp only
  split
  case h_5 | h_6 => exact settles_ok _
  all_goals
    split
    · first | exact settles_ok _ | exact settles_fail _
    · first | exact settles_ok _ | exact settles_fail _

mutual

theorem settles_toMatch : (condition : Condition) → Settles condition.toMatch
  | .absent => by
    rw [toMatch]
    exact settles_fail _
  | .simple comparison => by
    rw [toMatch]
    exact settles_comparisonMatch comparison
  | .all children | .any children => by
    rw [toMatch]
    exact settles_bind (settles_toMatches children) fun _ => settles_ok _

theorem settles_toMatches : (children : List Condition) → Settles (toMatches children)
  | [] => by
    rw [toMatches]
    exact settles_ok _
  | child :: rest => by
    rw [toMatches]
    exact settles_bind (settles_toMatch child) fun _ =>
      settles_bind (settles_toMatches rest) fun _ => settles_ok _

end

mutual

theorem settles_toExpression (withPatterns : Bool) : (condition : Condition) →
    Settles (condition.toExpression withPatterns)
  | .absent => by
    rw [toExpression]
    exact settles_fail _
  | .simple comparison => by
    rw [toExpression]
    exact settles_comparisonExpression withPatterns comparison
  | .all children | .any children => by
    rw [toExpression]
    exact settles_bind (settles_toExpressions withPatterns children) fun _ => settles_ok _

theorem settles_toExpressions (withPatterns : Bool) : (children : List Condition) →
    Settles (toExpressions withPatterns children)
  | [] => by
    rw [toExpressions]
    exact settles_ok _
  | child :: rest => by
    rw [toExpressions]
    exact settles_bind (settles_toExpression withPatterns child) fun _ =>
      settles_bind (settles_toExpressions withPatterns rest) fun _ => settles_ok _

end

end Condition

namespace Formula

section Reader

variable (finish : Nat)

mutual

theorem settles_sum : (depth : Nat) → (tokens : List Token) → Settles (sum finish depth tokens)
  | 0, _ => by
    rw [sum]
    exact settles_fail _
  | depth + 1, tokens => by
    rw [sum]
    exact settles_bind (settles_product depth tokens) fun _ => settles_sumRest depth _ _

theorem settles_sumRest : (depth : Nat) → (left : Formula) → (tokens : List Token) →
    Settles (sumRest finish depth left tokens)
  | 0, _, _ => by
    rw [sumRest]
    exact settles_fail _
  | depth + 1, left, tokens => by
    unfold sumRest
    split
    · split
      · exact settles_bind (settles_product depth _) fun _ => settles_sumRest depth _ _
      · exact settles_ok _
    · exact settles_ok _

theorem settles_product : (depth : Nat) → (tokens : List Token) →
    Settles (product finish depth tokens)
  | 0, _ => by
    rw [product]
    exact settles_fail _
  | depth + 1, tokens => by
    rw [product]
    exact settles_bind (settles_signed depth tokens) fun _ => settles_productRest depth _ _

theorem settles_productRest : (depth : Nat) → (left : Formula) → (tokens : List Token) →
    Settles (productRest finish depth left tokens)
  | 0, _, _ => by
    rw [productRest]
    exact settles_fail _
  | depth + 1, left, tokens => by
    unfold productRest
    split
    · split
      · exact settles_ok _
      · exact settles_bind (settles_signed depth _) fun _ => settles_productRest depth _ _
    · exact settles_ok _

theorem settles_signed : (depth : Nat) → (tokens : List Token) → Settles (signed finish depth tokens)
  | 0, _ => by
    rw [signed]
    exact settles_fail _
  | depth + 1, tokens => by
    unfold signed
    split
    · exact settles_bind (settles_signed depth _) fun _ => settles_ok _
    · exact settles_operand depth _

theorem settles_operand : (depth : Nat) → (tokens : List Token) →
    Settles (operand finish depth tokens)
  | 0, _ => by
    rw [operand]
    exact settles_fail _
  | depth + 1, tokens => by
    unfold operand
    split
    · exact settles_fail _
    · split
      case h_4 =>
        refine settles_bind (settles_sum depth _) fun ⟨inner, rest⟩ => ?_
        dsimp only
        split
        · exact settles_ok _
        · exact settles_fail _
      all_goals first | exact settles_ok _ | exact settles_fail _

end

end Reader

theorem settles_parse (text : String) : Settles (parse text) := by
  unfold parse
  dsimp only
  split
  · exact settles_fail _
  · refine settles_bind (settles_sum _ _ _) fun ⟨formula, rest⟩ => ?_
    dsimp only
    split
    · exact settles_ok _
    · exact settles_fail _

end Formula

theorem Value.settles_formulaTerm (value : Value) : Settles value.formulaTerm := by
  unfold formulaTerm
  split
  · exact settles_bind (Formula.settles_parse _) fun _ => settles_ok _
  · exact settles_fail _
  · exact settles_ok _

namespace Staging

theorem settles_branch (withPatterns : Bool) (held : Branch) : Settles (branch withPatterns held) := by
  induction held with
  | last test consequent alternative =>
    rw [branch]
    refine settles_bind (settles_inside _ (test.settles_toExpression withPatterns)) fun _ => ?_
    refine settles_bind (settles_inside _ consequent.settles_formulaTerm) fun _ => ?_
    exact settles_bind (settles_inside _ alternative.settles_formulaTerm) fun _ => settles_ok _
  | chain test consequent next inductionHypothesis =>
    rw [branch]
    refine settles_bind (settles_inside _ (test.settles_toExpression withPatterns)) fun _ => ?_
    refine settles_bind (settles_inside _ consequent.settles_formulaTerm) fun _ => ?_
    exact settles_bind (settles_inside _ inductionHypothesis) fun _ => settles_ok _

theorem settles_dateFields (column : String) (parts newColumns : List String) :
    Settles (dateFields column parts newColumns) := by
  induction parts generalizing newColumns with
  | nil =>
    rw [dateFields]
    exact settles_ok _
  | cons part rest inductionHypothesis =>
    have extracted : Settles (DatePart.extract part column) := by
      unfold DatePart.extract
      split
      · exact settles_ok _
      · exact settles_fail _
    rw [dateFields]
    exact settles_bind extracted fun _ =>
      settles_bind (inductionHypothesis newColumns.tail) fun _ => settles_ok _

theorem settles_accumulator (function column : String) : Settles (accumulator function column) := by
  unfold accumulator
  split <;> first | exact settles_ok _ | exact settles_fail _

theorem settles_aggregatedColumns (function : String) (pairs : List (String × String)) :
    Settles (aggregatedColumns function pairs) := by
  induction pairs with
  | nil => exact settles_ok _
  | cons pair rest inductionHypothesis =>
    refine settles_bind (settles_bind (settles_accumulator function pair.1) fun _ => ?_) fun _ =>
      settles_bind inductionHypothesis fun _ => settles_ok _
    split <;> exact settles_ok _

theorem settles_aggregatedAll (aggregations : List Aggregation) :
    Settles (aggregatedAll aggregations) := by
  induction aggregations with
  | nil => exact settles_ok _
  | cons aggregation rest inductionHypothesis =>
    rw [aggregatedAll]
    split
    · exact settles_fail _
    · exact settles_bind (settles_aggregatedColumns _ _) fun _ =>
        settles_bind inductionHypothesis fun _ => settles_ok _

theorem settles_customStages (index : Nat) (items : List Value) :
    Settles (customStages index items) := by
  fun_induction customStages index items with
  | case1 => exact settles_ok _
  | case2 index fields rest inductionHypothesis =>
    exact settles_bind inductionHypothesis fun _ => settles_ok _
  | case3 => exact settles_fail _

theorem settles_custom (query : Value) : Settles (custom query) := by
  unfold custom
  split
  · exact settles_ok _
  · exact settles_customStages _ _
  · exact settles_fail _

theorem settles_cumSum (pairs : List (String × String)) (reference : String) (groups : ColumnList) :
    Settles (cumSum pairs reference groups) := by
  unfold cumSum
  split
  · exact settles_fail _
  · exact settles_ok _

theorem settles_require (backend : Backend) (feature : Feature) (what : String) :
    Settles (backend.require feature what) := by
  unfold Backend.require
  split
  · exact settles_ok _
  · exact settles_fail _

/-- Every operation but one comes to stages or to a refusal. -/
theorem operationStages_eq_notFinite {backend : Backend} {operation : Operation} {number : Float} :
    operationStages backend operation = .error (.notFinite number) ↔
      ∃ groups rankOn order limit, operation = .top groups rankOn order limit ∧
        limit.floating? = some number ∧ number.isFinite = false := by
  have settled (settles : Settles (operationStages backend operation))
      (unlimited : operation.limit? = none) :
      operationStages backend operation = .error (.notFinite number) ↔
        ∃ groups rankOn order limit, operation = .top groups rankOn order limit ∧
          limit.floating? = some number ∧ number.isFinite = false := by
    constructor
    · intro stopped
      exact absurd stopped (settles number)
    · rintro ⟨groups, rankOn, order, limit, rfl, _⟩
      cases unlimited
  cases operation with
  | top groups rankOn order limit =>
    rw [operationStages, Attempt.bind_eq_notFinite, Attempt.inside_eq_notFinite,
      Casting.integer_eq_notFinite]
    constructor
    · rintro (stopped | ⟨_, _, finished⟩)
      · exact ⟨groups, rankOn, order, limit, rfl, stopped⟩
      · cases finished
    · rintro ⟨_, _, _, _, same, stopped⟩
      cases same
      exact .inl stopped
  | filter condition =>
    exact settled (settles_bind condition.settles_toMatch fun _ => settles_ok _) rfl
  | formula newColumn expression =>
    exact settled (settles_bind expression.settles_formulaTerm fun _ => settles_ok _) rfl
  | ifThenElse newColumn held =>
    exact settled (settles_bind (settles_branch _ held) fun _ => settles_ok _) rfl
  | dateExtract column parts newColumns =>
    refine settled ?_ rfl
    rw [operationStages, dateExtract]
    split
    · exact settles_fail _
    · exact settles_bind (settles_dateFields _ _ _) fun _ => settles_ok _
  | aggregate on aggregations keepRows =>
    refine settled (settles_bind (settles_aggregatedAll _) fun _ => ?_) rfl
    dsimp only
    split <;> exact settles_ok _
  | toDate column format =>
    refine settled ?_ rfl
    rw [operationStages, toDate]
    split
    · exact settles_ok _
    · exact settles_bind (settles_require _ _ _) fun _ => settles_ok _
  | substring column first last newColumn =>
    refine settled ?_ rfl
    rw [operationStages, substring]
    split
    · exact settles_fail _
    · exact settles_ok _
  | trim columns => exact settled (settles_bind (settles_require _ _ _) fun _ => settles_ok _) rfl
  | cumSum pairs reference groups => exact settled (settles_cumSum _ _ _) rfl
  | convert columns dataType =>
    refine settled (settles_bind (settles_require _ _ _) fun _ => ?_) rfl
    split
    · exact settles_fail _
    · exact settles_ok _
  | custom query => exact settled (settles_custom query) rfl
  | _ => exact settled (settles_ok _) rfl

end Staging

section Stops

variable (target : Target) (number : Float)

mutual

/-- A step at which the work stops: a top step with the number as its limit, or a step one of whose
pipelines written in place is stopped at. -/
inductive Step.Stops : Step → Prop
  | top {groups rankOn order limit} (comesTo : limit.floating? = some number)
      (endless : number.isFinite = false) : Step.Stops (.transform (.top groups rankOn order limit))
  | append {sources} (stops : Reference.SomeStops sources) : Step.Stops (.append (some sources))
  | join {right type on} (paired : on.getD [] ≠ []) (stops : Reference.Stops right) :
      Step.Stops (.join right type on)

/-- The work stops at one of several steps, all before it having gone well. -/
inductive Step.SomeStops : List Step → Prop
  | here {step rest} (stops : Step.Stops step) : Step.SomeStops (step :: rest)
  | later {step rest stages} (passed : Staging.stepStages target step = .ok stages)
      (stops : Step.SomeStops rest) : Step.SomeStops (step :: rest)

inductive Pipeline.Stops : List Step → Prop
  | domain {name steps} (stops : Step.SomeStops steps) : Pipeline.Stops (.domain name :: steps)

inductive Reference.Stops : Reference → Prop
  | inline {steps} (stops : Pipeline.Stops steps) : Reference.Stops (.inline steps)

inductive Reference.SomeStops : List Reference → Prop
  | here {reference rest} (stops : Reference.Stops reference) :
      Reference.SomeStops (reference :: rest)
  | later {reference rest query} (passed : Staging.sourceQuery target reference = .ok query)
      (stops : Reference.SomeStops rest) : Reference.SomeStops (reference :: rest)

end

end Stops

namespace Staging

variable (target : Target) (number : Float)

theorem settles_join (type : String) (pairs : List (String × String)) (query : Query) :
    Settles (join type pairs query) := by
  have unwound : Settles (joinUnwind type) := by
    unfold joinUnwind
    split <;> first | exact settles_ok _ | exact settles_fail _
  exact settles_bind unwound fun _ => settles_ok _

mutual

theorem query_eq_notFinite : (steps : List Step) →
    (query target steps = .error (.notFinite number) ↔ Pipeline.Stops target number steps)
  | [] => by
    rw [query]
    exact ⟨nofun, nofun⟩
  | .domain name :: rest => by
    rw [query, Attempt.bind_eq_notFinite, stepsStages_eq_notFinite 1 rest]
    constructor
    · rintro (stops | ⟨_, _, finished⟩)
      · exact .domain stops
      · cases finished
    · rintro ⟨stops⟩
      exact .inl stops
  | .append _ :: _ | .join .. :: _ | .transform _ :: _ => by
    rw [query]
    · exact ⟨nofun, nofun⟩
    · exact nofun

theorem stepsStages_eq_notFinite : (index : Nat) → (steps : List Step) →
    (stepsStages target index steps = .error (.notFinite number) ↔
      Step.SomeStops target number steps)
  | _, [] => by
    rw [stepsStages]
    exact ⟨nofun, nofun⟩
  | index, first :: rest => by
    rw [stepsStages, Attempt.bind_eq_notFinite, Attempt.inside_eq_notFinite,
      stepStages_eq_notFinite first]
    constructor
    · rintro (stops | ⟨_, passed, stopped⟩)
      · exact .here stops
      · rcases Attempt.bind_eq_notFinite.mp stopped with stops | ⟨_, _, finished⟩
        · exact .later (Attempt.inside_eq_ok.mp passed)
            ((stepsStages_eq_notFinite (index + 1) rest).mp stops)
        · cases finished
    · rintro (stops | ⟨passed, stops⟩)
      · exact .inl stops
      · refine .inr ⟨_, Attempt.inside_eq_ok.mpr passed, Attempt.bind_eq_notFinite.mpr (.inl ?_)⟩
        exact (stepsStages_eq_notFinite (index + 1) rest).mpr stops

theorem stepStages_eq_notFinite : (step : Step) →
    (stepStages target step = .error (.notFinite number) ↔ Step.Stops target number step)
  | .domain name => by
    rw [stepStages]
    exact ⟨nofun, nofun⟩
  | .append none => by
    rw [stepStages]
    exact ⟨nofun, nofun⟩
  | .append (some sources) => by
    rw [stepStages, Attempt.bind_eq_notFinite, sourceQueries_eq_notFinite 0 sources]
    constructor
    · rintro (stops | ⟨_, _, finished⟩)
      · exact .append stops
      · cases finished
    · rintro (_ | stops)
      exact .inl stops
  | .join right type on => by
    rw [stepStages]
    split
    next unpaired =>
      constructor
      · exact nofun
      · rintro (_ | _ | ⟨paired, _⟩)
        exact absurd unpaired paired
    next pairs paired =>
      rw [Attempt.bind_eq_notFinite, Attempt.inside_eq_notFinite, sourceQuery_eq_notFinite right]
      constructor
      · rintro (stops | ⟨_, _, finished⟩)
        · exact .join paired stops
        · exact absurd finished (settles_join _ _ _ number)
      · rintro (_ | _ | ⟨_, stops⟩)
        exact .inl stops
  | .transform operation => by
    rw [stepStages, operationStages_eq_notFinite]
    constructor
    · rintro ⟨_, _, _, _, rfl, comesTo, endless⟩
      exact .top comesTo endless
    · rintro (⟨comesTo, endless⟩)
      exact ⟨_, _, _, _, rfl, comesTo, endless⟩

theorem sourceQueries_eq_notFinite : (index : Nat) → (sources : List Reference) →
    (sourceQueries target index sources = .error (.notFinite number) ↔
      Reference.SomeStops target number sources)
  | _, [] => by
    rw [sourceQueries]
    exact ⟨nofun, nofun⟩
  | index, first :: rest => by
    rw [sourceQueries, Attempt.bind_eq_notFinite, Attempt.inside_eq_notFinite,
      sourceQuery_eq_notFinite first]
    constructor
    · rintro (stops | ⟨_, passed, stopped⟩)
      · exact .here stops
      · rcases Attempt.bind_eq_notFinite.mp stopped with stops | ⟨_, _, finished⟩
        · exact .later (Attempt.inside_eq_ok.mp passed)
            ((sourceQueries_eq_notFinite (index + 1) rest).mp stops)
        · cases finished
    · rintro (stops | ⟨passed, stops⟩)
      · exact .inl stops
      · refine .inr ⟨_, Attempt.inside_eq_ok.mpr passed, Attempt.bind_eq_notFinite.mpr (.inl ?_)⟩
        exact (sourceQueries_eq_notFinite (index + 1) rest).mpr stops

theorem sourceQuery_eq_notFinite : (reference : Reference) →
    (sourceQuery target reference = .error (.notFinite number) ↔
      Reference.Stops target number reference)
  | .named name => by
    rw [sourceQuery]
    exact ⟨nofun, nofun⟩
  | .inline steps => by
    rw [sourceQuery, query_eq_notFinite steps]
    exact ⟨.inline, fun ⟨stops⟩ => stops⟩

end

end Staging

namespace Pipeline

/-- Making a query stops exactly where the backend is known and, the steps taken in order, a top step
is reached whose limit is not finite; in every other case there is a query or a refusal. -/
theorem toQuery_stops_iff (pipeline : Pipeline) (backend : String) (simplifies : Bool)
    (number : Float) :
    pipeline.toQuery backend simplifies = .error (.notFinite number) ↔
      ∃ version, (if backend == "" then some Backend.usual else Backend.ofName? backend) =
          some version ∧ Stops ⟨version, simplifies⟩ number pipeline := by
  unfold toQuery
  split
  next version known =>
    rw [Staging.query_eq_notFinite]
    constructor
    · intro stops
      exact ⟨version, known, stops⟩
    · rintro ⟨other, same, stops⟩
      cases known.symm.trans same
      exact stops
  next unknown =>
    constructor
    · exact nofun
    · rintro ⟨version, known, _⟩
      cases unknown.symm.trans known

/-- The rendering of templates without variables. -/
def plainRender (template : String) : ExceptT Failure Id Value :=
  ExceptT.mk (pure (Template.render Delimiters.curly (Expression.evaluate? []) template))

/-- A pipeline whose limit is a quotient by zero. -/
def endlessLimit : Pipeline :=
  [.domain "sales", .transform (.top none "price" "desc" (.text "\x7b\x7b 1.0 / 0.0 \x7d\x7d"))]

/-- Rendering gives that limit as a number, and making the query stops at it. -/
theorem toQuery_endlessLimit :
    ∃ rendered number, (endlessLimit.interpolate plainRender).run.run = .ok rendered ∧
      rendered.toQuery "" true = .error (.notFinite number) := by
  have renders : (endlessLimit.interpolate plainRender).run.run.isOk := by decide +kernel
  have stops : Attempt.isStopped
      ((endlessLimit.interpolate plainRender).run.run >>= (·.toQuery "" true)) := by decide +kernel
  obtain ⟨number, stopped⟩ := Attempt.exists_of_isStopped stops
  rcases Attempt.bind_eq_notFinite.mp stopped with early | ⟨rendered, rendering, late⟩
  · rw [early] at renders
    cases renders
  · exact ⟨rendered, number, rendering, late⟩

end Pipeline

end StepQuery
