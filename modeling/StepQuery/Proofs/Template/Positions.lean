import StepQuery.Template.Interpolation

/-!
What rendering a pipeline does.  The positions of a pipeline are the places where a template may
stand, from left to right through every nesting.  Rendering the pipeline visits them in that order,
goes no further than the first that fails, and puts what it found in their places; nothing else of
the pipeline changes.  The renderer may keep a state of its own, so one template can be rendered
differently at two positions.
-/

namespace StepQuery

/-- A place where a value is rendered.  The limit of a top step is rendered only if it is a text, and
has to be a number afterwards. -/
inductive Position where
  | template (text : String)
  | limit (held : Value)

namespace Value

def positions : Value → List Position
  | .text template => [.template template]
  | _ => []

/-- The positions of the value of a comparison: of a list, those of its items. -/
def comparedPositions : Value → List Position
  | .list items => items.flatMap positions
  | other => other.positions

end Value

namespace Condition

mutual

def positions : Condition → List Position
  | .absent => []
  | .simple comparison => comparison.value.comparedPositions
  | .all children => positionsOf children
  | .any children => positionsOf children

def positionsOf : List Condition → List Position
  | [] => []
  | first :: rest => positions first ++ positionsOf rest

end

end Condition

def Branch.positions : Branch → List Position
  | .last test consequent alternative =>
    test.positions ++ (consequent.positions ++ alternative.positions)
  | .chain test consequent next => test.positions ++ (consequent.positions ++ positions next)

def Operation.positions : Operation → List Position
  | .filter condition => condition.positions
  | .formula _ expression => expression.positions
  | .fillna _ value => value.positions
  | .text _ content => content.positions
  | .replace _ pairs =>
    (pairs.getD []).flatMap fun pair => pair.1.positions ++ pair.2.positions
  | .top _ _ _ limit => [.limit limit]
  | .ifThenElse _ branch => branch.positions
  | _ => []

mutual

/-- The positions of a pipeline from left to right, those of the pipelines written in place
included. -/
def Pipeline.positions : Pipeline → List Position
  | [] => []
  | first :: rest => Step.positions first ++ Pipeline.positions rest

def Step.positions : Step → List Position
  | .domain _ => []
  | .append none => []
  | .append (some sources) => Reference.positionsOf sources
  | .join right _ _ => Reference.positions right
  | .transform operation => operation.positions

def Reference.positions : Reference → List Position
  | .named _ => []
  | .inline steps => Pipeline.positions steps

def Reference.positionsOf : List Reference → List Position
  | [] => []
  | first :: rest => Reference.positions first ++ Reference.positionsOf rest

end

/-- A list is replaced item by item, each item taking its share of the values. -/
inductive EachReplaced {α : Type} (Replaced : α → List Value → α → Prop) :
    List α → List Value → List α → Prop where
  | nil : EachReplaced Replaced [] [] []
  | cons {first found : α} {rest others : List α} {values later : List Value} :
      Replaced first values found → EachReplaced Replaced rest later others →
      EachReplaced Replaced (first :: rest) (values ++ later) (found :: others)

/-- The second value is the first one with the values put in the places of its positions.  The
relations below say the same of conditions, branches, operations, steps and references. -/
inductive Value.Replaced : Value → List Value → Value → Prop where
  | template {text : String} {found : Value} : Replaced (.text text) [found] found
  | kept {value : Value} : value.positions = [] → Replaced value [] value

inductive Value.ComparedReplaced : Value → List Value → Value → Prop where
  | list {items found values : List Value} : EachReplaced Value.Replaced items values found →
      ComparedReplaced (.list items) values (.list found)
  | single {value found : Value} {values : List Value} : (∀ items, value ≠ .list items) →
      value.Replaced values found → ComparedReplaced value values found

inductive Condition.Replaced : Condition → List Value → Condition → Prop where
  | absent : Replaced .absent [] .absent
  | simple {comparison : Comparison} {values : List Value} {found : Value} :
      comparison.value.ComparedReplaced values found →
      Replaced (.simple comparison) values (.simple { comparison with value := found })
  | all {children found : List Condition} {values : List Value} :
      EachReplaced Condition.Replaced children values found →
      Replaced (.all children) values (.all found)
  | any {children found : List Condition} {values : List Value} :
      EachReplaced Condition.Replaced children values found →
      Replaced (.any children) values (.any found)

inductive Branch.Replaced : Branch → List Value → Branch → Prop where
  | last {test test' : Condition} {consequent consequent' alternative alternative' : Value}
      {tests consequents alternatives : List Value} :
      test.Replaced tests test' → consequent.Replaced consequents consequent' →
      alternative.Replaced alternatives alternative' →
      Replaced (.last test consequent alternative) (tests ++ (consequents ++ alternatives))
        (.last test' consequent' alternative')
  | chain {test test' : Condition} {consequent consequent' : Value} {next next' : Branch}
      {tests consequents others : List Value} :
      test.Replaced tests test' → consequent.Replaced consequents consequent' →
      Replaced next others next' →
      Replaced (.chain test consequent next) (tests ++ (consequents ++ others))
        (.chain test' consequent' next')

inductive PairReplaced : Value × Value → List Value → Value × Value → Prop where
  | pair {old old' new new' : Value} {values later : List Value} :
      old.Replaced values old' → new.Replaced later new' →
      PairReplaced (old, new) (values ++ later) (old', new')

inductive Operation.Replaced : Operation → List Value → Operation → Prop where
  | filter {condition found : Condition} {values : List Value} : condition.Replaced values found →
      Replaced (.filter condition) values (.filter found)
  | formula {newColumn : String} {expression found : Value} {values : List Value} :
      expression.Replaced values found →
      Replaced (.formula newColumn expression) values (.formula newColumn found)
  | fillna {columns : ColumnList} {value found : Value} {values : List Value} :
      value.Replaced values found → Replaced (.fillna columns value) values (.fillna columns found)
  | text {newColumn : String} {content found : Value} {values : List Value} :
      content.Replaced values found →
      Replaced (.text newColumn content) values (.text newColumn found)
  | replace {column : String} {pairs found : List (Value × Value)} {values : List Value} :
      EachReplaced PairReplaced pairs values found →
      Replaced (.replace column (some pairs)) values (.replace column (some found))
  | top {groups : ColumnList} {rankOn order : String} {limit found : Value} :
      Replaced (.top groups rankOn order limit) [found] (.top groups rankOn order found)
  | ifThenElse {newColumn : String} {branch found : Branch} {values : List Value} :
      branch.Replaced values found →
      Replaced (.ifThenElse newColumn branch) values (.ifThenElse newColumn found)
  | kept {operation : Operation} : operation.positions = [] → Replaced operation [] operation

mutual

inductive Step.Replaced : Step → List Value → Step → Prop where
  | domain {name : String} : Step.Replaced (.domain name) [] (.domain name)
  | appendAbsent : Step.Replaced (.append none) [] (.append (some []))
  | append {sources found : List Reference} {values : List Value} :
      EachReplaced Reference.Replaced sources values found →
      Step.Replaced (.append (some sources)) values (.append (some found))
  | join {right found : Reference} {type : String} {on : ColumnPairs} {values : List Value} :
      Reference.Replaced right values found →
      Step.Replaced (.join right type on) values (.join found type on)
  | transform {operation found : Operation} {values : List Value} :
      operation.Replaced values found → Step.Replaced (.transform operation) values (.transform found)

inductive Reference.Replaced : Reference → List Value → Reference → Prop where
  | named {name : String} : Reference.Replaced (.named name) [] (.named name)
  | inline {steps found : List Step} {values : List Value} :
      EachReplaced Step.Replaced steps values found →
      Reference.Replaced (.inline steps) values (.inline found)

end

def Pipeline.Replaced (pipeline : Pipeline) (values : List Value) (found : Pipeline) : Prop :=
  EachReplaced Step.Replaced pipeline values found

namespace Interpolation

variable {σ α β : Type}

/-- How a rendering with a state ends: with a result or a failure, and in which state. -/
def outcome (action : Rendering (StateM σ) α) (state : σ) : Except Failure α × σ :=
  action.run.run state

@[simp]
theorem outcome_pure (result : α) (state : σ) :
    outcome (pure result : Rendering (StateM σ) α) state = (.ok result, state) := rfl

@[simp]
theorem outcome_attempt (attempt : Attempt α) (state : σ) :
    outcome (ExceptT.mk (pure attempt) : Rendering (StateM σ) α) state = (attempt, state) := rfl

theorem outcome_bind (action : Rendering (StateM σ) α) (next : α → Rendering (StateM σ) β)
    (state : σ) :
    outcome (action >>= next) state =
      match outcome action state with
      | (.ok result, reached) => outcome (next result) reached
      | (.error failure, reached) => (.error failure, reached) := by
  unfold outcome
  rw [ExceptT.run_bind, StateT.run_bind]
  rcases action.run.run state with ⟨_ | result, reached⟩ <;> rfl

@[simp]
theorem outcome_inside (place : Place) (action : Rendering (StateM σ) α) (state : σ) :
    outcome (inside place action) state =
      ((outcome action state).1.mapError (Failure.within place), (outcome action state).2) := by
  unfold outcome
  rw [inside, ExceptT.run_adapt, StateT.run_map]
  rfl

theorem outcome_bind_eq_ok {action : Rendering (StateM σ) α} {next : α → Rendering (StateM σ) β}
    {state reached : σ} {result : β} :
    outcome (action >>= next) state = (.ok result, reached) ↔
      ∃ middle between, outcome action state = (.ok middle, between) ∧
        outcome (next middle) between = (.ok result, reached) := by
  rw [outcome_bind]
  rcases outcome action state with ⟨failure | middle, between⟩
  · simp
  · constructor
    · intro returned
      exact ⟨middle, between, rfl, returned⟩
    · rintro ⟨_, _, ⟨⟩, returned⟩
      exact returned

theorem outcome_inside_eq_ok {place : Place} {action : Rendering (StateM σ) α} {state reached : σ}
    {result : α} :
    outcome (inside place action) state = (.ok result, reached) ↔
      outcome action state = (.ok result, reached) := by
  rw [outcome_inside]
  rcases outcome action state with ⟨failure | found, ended⟩
  · exact ⟨nofun, nofun⟩
  · exact Iff.rfl

/-- The renderer that passes each template on and notes it. -/
def recorded (render : String → Rendering (StateM σ) Value) (template : String) :
    Rendering (StateM (σ × List String)) Value :=
  ExceptT.mk fun (state, noted) =>
    let (found, reached) := outcome (render template) state
    (found, reached, noted ++ [template])

@[simp]
theorem outcome_recorded (render : String → Rendering (StateM σ) Value) (template : String)
    (state : σ) (noted : List String) :
    outcome (recorded render template) (state, noted) =
      ((outcome (render template) state).1, (outcome (render template) state).2,
        noted ++ [template]) := rfl

end Interpolation

namespace Position

open Interpolation (Rendering outcome)

variable {m : Type → Type} [Monad m]

/-- The template that is rendered at a position. -/
def template? : Position → Option String
  | .template text => some text
  | .limit (.text text) => some text
  | .limit _ => none

/-- The value found for a position. -/
def answer (render : String → Rendering m Value) : Position → Rendering m Value
  | .template text => render text
  | .limit (.text text) => do
    let found ← render text
    ExceptT.mk (pure (Casting.number found))
  | .limit held => ExceptT.mk (pure (Casting.number held))

/-- The values found for positions, one after the other. -/
def visit (render : String → Rendering m Value) : List Position → Rendering m (List Value)
  | [] => pure []
  | position :: rest => do
    let found ← position.answer render
    let others ← visit render rest
    return found :: others

/-- The templates passed to the renderer: those of all positions up to the first that fails. -/
def calls {σ : Type} (render : String → Rendering (StateM σ) Value) : List Position → σ → List String
  | [], _ => []
  | position :: rest, state =>
    position.template?.toList ++
      match outcome (position.answer render) state with
      | (.ok _, reached) => calls render rest reached
      | (.error _, _) => []

end Position

end StepQuery
