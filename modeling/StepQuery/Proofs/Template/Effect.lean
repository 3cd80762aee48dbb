import StepQuery.Proofs.Template.Positions

/-!
The exact effect of rendering a pipeline.  `Performs` compares a rendering with the plain visit of a
list of positions: from every state both fail or both succeed, in the same state, and the result has
the values of the visit in its places.  There is one rule for each way of putting renderings
together, and the positions of a whole are those of its parts in order.
-/

namespace StepQuery

namespace Position

open Interpolation (Rendering recorded outcome outcome_bind outcome_recorded)

theorem visit_append {m : Type → Type} [Monad m] [LawfulMonad m]
    (render : String → Rendering m Value) (first second : List Position) :
    visit render (first ++ second) = do
      let values ← visit render first
      let later ← visit render second
      return values ++ later := by
  induction first with
  | nil => simp [visit]
  | cons position rest inductionHypothesis => simp [visit, inductionHypothesis]

variable {σ : Type} (render : String → Rendering (StateM σ) Value)

theorem outcome_answer_recorded (position : Position) (state : σ) (noted : List String) :
    outcome (position.answer (recorded render)) (state, noted) =
      ((outcome (position.answer render) state).1, (outcome (position.answer render) state).2,
        noted ++ position.template?.toList) := by
  cases position with
  | template text => rfl
  | limit held =>
    cases held with
    | text template =>
      simp only [answer, template?, outcome_bind, outcome_recorded]
      rcases outcome (render template) state with ⟨failure | found, reached⟩ <;> rfl
    | _ => simp [answer, template?]

/-- Noting the templates changes nothing in a visit, and what is noted are its calls. -/
theorem outcome_visit_recorded (positions : List Position) (state : σ) (noted : List String) :
    outcome (visit (recorded render) positions) (state, noted) =
      ((outcome (visit render positions) state).1, (outcome (visit render positions) state).2,
        noted ++ calls render positions state) := by
  induction positions generalizing state noted with
  | nil => simp [visit, calls]
  | cons position rest inductionHypothesis =>
    simp only [visit, calls, outcome_bind, outcome_answer_recorded]
    rcases outcome (position.answer render) state with ⟨failure | found, reached⟩
    · simp
    · simp only [inductionHypothesis, List.append_assoc]
      rcases outcome (visit render rest) reached with ⟨failure | others, ended⟩ <;> rfl

end Position

namespace Interpolation

open Position (visit visit_append)

variable {σ α β : Type} {render : String → Rendering (StateM σ) Value}

variable (render) in
/-- The rendering does what visiting the positions does, and its result comes from the values found
there. -/
def Performs (action : Rendering (StateM σ) α) (positions : List Position)
    (replaced : List Value → α → Prop) : Prop :=
  ∀ state,
    (∃ values result reached, outcome (visit render positions) state = (.ok values, reached) ∧
      outcome action state = (.ok result, reached) ∧ replaced values result) ∨
    ∃ failure failure' reached, outcome (visit render positions) state = (.error failure, reached) ∧
      outcome action state = (.error failure', reached)

theorem performs_pure {replaced : List Value → α → Prop} {result : α} (holds : replaced [] result) :
    Performs render (pure result) [] replaced :=
  fun state => .inl ⟨[], result, state, rfl, rfl, holds⟩

theorem performs_inside {action : Rendering (StateM σ) α} {positions : List Position}
    {replaced : List Value → α → Prop} (place : Place)
    (performs : Performs render action positions replaced) :
    Performs render (inside place action) positions replaced := by
  intro state
  obtain ⟨values, result, reached, visited, acted, holds⟩ |
    ⟨failure, failure', reached, visited, acted⟩ := performs state
  · exact .inl ⟨values, result, reached, visited, by rw [outcome_inside, acted]; rfl, holds⟩
  · exact .inr ⟨failure, _, reached, visited, by rw [outcome_inside, acted]; rfl⟩

theorem performs_bind {action : Rendering (StateM σ) α} {next : α → Rendering (StateM σ) β}
    {positions later : List Position} {replaced : List Value → α → Prop}
    {following : α → List Value → β → Prop} {ending : List Value → β → Prop}
    (first : Performs render action positions replaced)
    (second : ∀ result, Performs render (next result) later (following result))
    (ends : ∀ front back middle result, replaced front middle → following middle back result →
      ending (front ++ back) result) :
    Performs render (action >>= next) (positions ++ later) ending := by
  intro state
  rw [visit_append]
  obtain ⟨front, middle, reached, visited, acted, holds⟩ |
    ⟨failure, failure', reached, visited, acted⟩ := first state
  · obtain ⟨back, result, ended, visited', acted', holds'⟩ |
      ⟨failure, failure', ended, visited', acted'⟩ := second middle reached
    · refine .inl ⟨front ++ back, result, ended, ?_, ?_, ends front back middle result holds holds'⟩
      · simp only [outcome_bind, visited, visited', outcome_pure]
      · simp only [outcome_bind, acted, acted']
    · refine .inr ⟨failure, failure', ended, ?_, ?_⟩
      · simp only [outcome_bind, visited, visited']
      · simp only [outcome_bind, acted, acted']
  · refine .inr ⟨failure, failure', reached, ?_, ?_⟩
    · simp only [outcome_bind, visited]
    · simp only [outcome_bind, acted]

theorem performs_mono {action : Rendering (StateM σ) α} {positions : List Position}
    {replaced ending : List Value → α → Prop} (performs : Performs render action positions replaced)
    (implies : ∀ values result, replaced values result → ending values result) :
    Performs render action positions ending := by
  intro state
  refine (performs state).imp_left ?_
  rintro ⟨values, result, reached, visited, acted, holds⟩
  exact ⟨values, result, reached, visited, acted, implies values result holds⟩

/-- A rendering whose result is put into a larger part. -/
theorem performs_map {action : Rendering (StateM σ) α} {positions : List Position}
    {replaced : List Value → α → Prop} {ending : List Value → β → Prop} {build : α → β}
    (performs : Performs render action positions replaced)
    (builds : ∀ values result, replaced values result → ending values (build result)) :
    Performs render (do return build (← action)) positions ending := by
  have returns : ∀ result, Performs render (pure (build result)) []
      fun values built => values = [] ∧ built = build result :=
    fun result => performs_pure ⟨rfl, rfl⟩
  have bound : Performs render (do return build (← action)) (positions ++ []) ending := by
    refine performs_bind performs returns ?_
    rintro front _ middle _ holds ⟨rfl, rfl⟩
    rw [List.append_nil]
    exact builds front middle holds
  rwa [List.append_nil] at bound

/-- Two renderings whose results are put into a larger part. -/
theorem performs_pair {γ : Type} {action : Rendering (StateM σ) α} {other : Rendering (StateM σ) β}
    {positions later : List Position} {replaced : List Value → α → Prop}
    {following : List Value → β → Prop} {ending : List Value → γ → Prop} {build : α → β → γ}
    (first : Performs render action positions replaced)
    (second : Performs render other later following)
    (builds : ∀ front back result result', replaced front result → following back result' →
      ending (front ++ back) (build result result')) :
    Performs render (do
      let result ← action
      let result' ← other
      return build result result') (positions ++ later) ending := by
  have continues : ∀ result, Performs render (do return build result (← other)) later
      fun values built => ∃ result', following values result' ∧ built = build result result' :=
    fun result => performs_map second fun values result' holds => ⟨result', holds, rfl⟩
  refine performs_bind first continues ?_
  rintro front back result _ holds ⟨result', holds', rfl⟩
  exact builds front back result result' holds holds'

/-- Three renderings whose results are put into a larger part. -/
theorem performs_triple {γ δ : Type} {action : Rendering (StateM σ) α}
    {other : Rendering (StateM σ) β} {further : Rendering (StateM σ) γ}
    {positions later last : List Position} {replaced : List Value → α → Prop}
    {following : List Value → β → Prop} {final : List Value → γ → Prop}
    {ending : List Value → δ → Prop} {build : α → β → γ → δ}
    (first : Performs render action positions replaced)
    (second : Performs render other later following)
    (third : Performs render further last final)
    (builds : ∀ front middle back result result' result'', replaced front result →
      following middle result' → final back result'' →
      ending (front ++ (middle ++ back)) (build result result' result'')) :
    Performs render (do
      let result ← action
      let result' ← other
      let result'' ← further
      return build result result' result'') (positions ++ (later ++ last)) ending := by
  have continues : ∀ result, Performs render (do
      let result' ← other
      let result'' ← further
      return build result result' result'') (later ++ last)
      fun values built => ∃ middle back result' result'', values = middle ++ back ∧
        following middle result' ∧ final back result'' ∧ built = build result result' result'' :=
    fun result => performs_pair second third fun middle back result' result'' holds holds' =>
      ⟨middle, back, result', result'', rfl, holds, holds', rfl⟩
  refine performs_bind first continues ?_
  rintro front _ result _ holds ⟨middle, back, result', result'', rfl, holds', holds'', rfl⟩
  exact builds front middle back result result' result'' holds holds' holds''

theorem performs_value (held : Value) :
    Performs render (value render held) held.positions held.Replaced := by
  by_cases isText : ∃ template, held = .text template
  · obtain ⟨template, rfl⟩ := isText
    intro state
    simp only [value, Value.positions, visit, Position.answer, outcome_bind]
    rcases outcome (render template) state with ⟨failure | found, reached⟩
    · exact .inr ⟨failure, failure, reached, rfl, rfl⟩
    · exact .inl ⟨[found], found, reached, rfl, rfl, .template⟩
  · have other : ∀ template, held = .text template → False :=
      fun template same => isText ⟨template, same⟩
    have none : held.positions = [] := by rw [Value.positions]; exact other
    rw [value, Value.copy_eq, none]
    · exact performs_pure (.kept none)
    · exact other

theorem performs_values (items : List Value) :
    Performs render (values render items) (items.flatMap Value.positions)
      (EachReplaced Value.Replaced items) := by
  induction items with
  | nil => exact performs_pure .nil
  | cons first rest inductionHypothesis =>
    rw [values, List.flatMap_cons]
    exact performs_pair (performs_value first) inductionHypothesis
      fun _ _ _ _ one others => .cons one others

theorem performs_comparedValue (held : Value) :
    Performs render (comparedValue render held) held.comparedPositions held.ComparedReplaced := by
  by_cases isList : ∃ items, held = .list items
  · obtain ⟨items, rfl⟩ := isList
    exact performs_map (performs_values items) fun _ _ replaced => .list replaced
  · have other : ∀ items, held = .list items → False := fun items same => isList ⟨items, same⟩
    rw [comparedValue, Value.comparedPositions]
    · exact performs_mono (performs_value held) fun _ _ replaced => .single other replaced
    · exact other
    · exact other

mutual

theorem performs_condition : (held : Condition) →
    Performs render (condition render held) held.positions held.Replaced
  | .absent => performs_pure .absent
  | .simple comparison => by
    rw [condition, Condition.positions]
    exact performs_map (performs_inside _ (performs_comparedValue comparison.value))
      fun _ _ replaced => .simple replaced
  | .all children => by
    rw [condition, Condition.positions]
    exact performs_map (performs_conditions children) fun _ _ replaced => .all replaced
  | .any children => by
    rw [condition, Condition.positions]
    exact performs_map (performs_conditions children) fun _ _ replaced => .any replaced

theorem performs_conditions : (children : List Condition) →
    Performs render (conditions render children) (Condition.positionsOf children)
      (EachReplaced Condition.Replaced children)
  | [] => performs_pure .nil
  | first :: rest => by
    rw [conditions, Condition.positionsOf]
    exact performs_pair (performs_condition first) (performs_conditions rest)
      fun _ _ _ _ one others => .cons one others

end

theorem performs_branch (held : Branch) :
    Performs render (branch render held) held.positions held.Replaced := by
  induction held with
  | last test consequent alternative =>
    exact performs_triple (performs_condition test) (performs_value consequent)
      (performs_value alternative) fun _ _ _ _ _ _ tested one other => .last tested one other
  | chain test consequent next inductionHypothesis =>
    exact performs_triple (performs_condition test) (performs_value consequent)
      inductionHypothesis fun _ _ _ _ _ _ tested one other => .chain tested one other

theorem performs_replacements (index : Nat) (pairs : List (Value × Value)) :
    Performs render (replacements render index pairs)
      (pairs.flatMap fun pair => pair.1.positions ++ pair.2.positions)
      (EachReplaced PairReplaced pairs) := by
  induction pairs generalizing index with
  | nil => exact performs_pure .nil
  | cons pair rest inductionHypothesis =>
    obtain ⟨old, new⟩ := pair
    rw [replacements, List.flatMap_cons, List.append_assoc]
    refine performs_triple (performs_inside _ (performs_value old))
      (performs_inside _ (performs_value new)) (inductionHypothesis (index + 1)) ?_
    intro front middle back old' new' others replacedOld replacedNew replacedRest
    rw [← List.append_assoc]
    exact .cons (.pair replacedOld replacedNew) replacedRest

theorem performs_limit (held : Value) :
    Performs render (limit render held) [.limit held] fun values found => values = [found] := by
  intro state
  cases held with
  | text template =>
    simp only [limit, value, visit, Position.answer, outcome_bind, outcome_inside, outcome_attempt,
      outcome_pure]
    rcases outcome (render template) state with ⟨failure | found, reached⟩
    · exact .inr ⟨failure, failure, reached, rfl, rfl⟩
    · dsimp only
      cases Casting.number found with
      | error failure => exact .inr ⟨failure, _, reached, rfl, rfl⟩
      | ok number => exact .inl ⟨[number], number, reached, rfl, rfl, rfl⟩
  | _ =>
    simp only [limit, value, Value.copy_eq, visit, Position.answer, outcome_bind, outcome_inside,
      outcome_attempt, outcome_pure]
    cases Casting.number _ with
    | error failure => exact .inr ⟨failure, _, state, rfl, rfl⟩
    | ok number => exact .inl ⟨[number], number, state, rfl, rfl, rfl⟩

/-- An operation is rendered where it may hold templates; the others are kept. -/
theorem performs_operation (held : Operation) :
    Performs render (operation render held) held.positions held.Replaced := by
  cases held with
  | filter held => exact performs_map (performs_condition held) fun _ _ replaced => .filter replaced
  | formula newColumn held =>
    exact performs_map (performs_value held) fun _ _ replaced => .formula replaced
  | fillna columns held =>
    rw [operation, copyList_eq]
    exact performs_map (performs_value held) fun _ _ replaced => .fillna replaced
  | text newColumn held =>
    exact performs_map (performs_value held) fun _ _ replaced => .text replaced
  | replace column pairs =>
    cases pairs with
    | none => exact performs_pure (.kept rfl)
    | some pairs =>
      exact performs_map (performs_replacements 0 pairs) fun _ _ replaced => .replace replaced
  | top groups rankOn order held =>
    rw [operation, copyList_eq]
    refine performs_map (performs_limit held) ?_
    rintro _ found rfl
    exact .top
  | ifThenElse newColumn held =>
    exact performs_map (performs_branch held) fun _ _ replaced => .ifThenElse replaced
  | _ =>
    simp only [operation, Operation.copy_eq]
    exact performs_pure (.kept rfl)

mutual

/-- Rendering a pipeline visits its positions and puts what it finds in their places. -/
theorem performs_steps : (index : Nat) → (written : List Step) →
    Performs render (steps render index written) (Pipeline.positions written)
      (EachReplaced Step.Replaced written)
  | _, [] => by
    rw [steps, Pipeline.positions]
    exact performs_pure .nil
  | index, first :: rest => by
    rw [steps, Pipeline.positions]
    exact performs_pair (performs_inside _ (performs_step first)) (performs_steps (index + 1) rest)
      fun _ _ _ _ one others => .cons one others

theorem performs_step : (written : Step) →
    Performs render (step render written) written.positions written.Replaced
  | .domain name => by
    rw [step, Step.positions]
    exact performs_pure .domain
  | .append none => by
    rw [step, Step.positions]
    exact performs_pure .appendAbsent
  | .append (some sources) => by
    rw [step, Step.positions]
    exact performs_map (performs_references sources) fun _ _ replaced => .append replaced
  | .join right type on => by
    rw [step, Step.positions, copyList_eq]
    exact performs_map (performs_reference right) fun _ _ replaced => .join replaced
  | .transform held => by
    rw [step, Step.positions]
    exact performs_map (performs_operation held) fun _ _ replaced => .transform replaced

theorem performs_references : (sources : List Reference) →
    Performs render (references render sources) (Reference.positionsOf sources)
      (EachReplaced Reference.Replaced sources)
  | [] => by
    rw [references, Reference.positionsOf]
    exact performs_pure .nil
  | first :: rest => by
    rw [references, Reference.positionsOf]
    exact performs_pair (performs_reference first) (performs_references rest)
      fun _ _ _ _ one others => .cons one others

theorem performs_reference : (written : Reference) →
    Performs render (reference render written) written.positions written.Replaced
  | .named name => by
    rw [reference, Reference.positions]
    exact performs_pure .named
  | .inline pipeline => by
    rw [reference, Reference.positions]
    exact performs_map (performs_steps 0 pipeline) fun _ _ replaced => .inline replaced

end

end Interpolation

namespace Pipeline

open Interpolation (Rendering Performs outcome recorded)
open Position (visit calls)

variable {σ : Type}

theorem performs_interpolate (render : String → Rendering (StateM σ) Value) (pipeline : Pipeline) :
    Performs render (pipeline.interpolate render) pipeline.positions pipeline.Replaced :=
  Interpolation.performs_steps 0 pipeline

theorem replaced_of_interpolate {render : String → Rendering (StateM σ) Value}
    {pipeline result : Pipeline} {start reached : σ}
    (returned : outcome (pipeline.interpolate render) start = (.ok result, reached)) :
    ∃ values, pipeline.Replaced values result := by
  obtain ⟨values, found, ended, _, acted, replaced⟩ | ⟨_, failure, ended, _, acted⟩ :=
    performs_interpolate render pipeline start
  · cases acted.symm.trans returned
    exact ⟨values, replaced⟩
  · cases acted.symm.trans returned

/-- The templates passed to the renderer are those of the positions in order, up to the first
position that fails.  If none fails, the result is the pipeline with the value found for each position
in its place; otherwise there is no result. -/
theorem interpolate_recorded (render : String → Rendering (StateM σ) Value) (pipeline : Pipeline)
    (start : σ) :
    match outcome (visit render pipeline.positions) start with
    | (.ok values, reached) =>
      ∃ result, pipeline.Replaced values result ∧
        outcome (pipeline.interpolate (recorded render)) (start, []) =
          (.ok result, reached, calls render pipeline.positions start)
    | (.error _, reached) =>
      ∃ failure, outcome (pipeline.interpolate (recorded render)) (start, []) =
        (.error failure, reached, calls render pipeline.positions start) := by
  have noted := Position.outcome_visit_recorded render pipeline.positions start []
  rw [List.nil_append] at noted
  obtain ⟨values, result, ended, visited, acted, replaced⟩ | ⟨_, failure, ended, visited, acted⟩ :=
    performs_interpolate (recorded render) pipeline (start, [])
  · rw [noted] at visited
    generalize outcome (visit render pipeline.positions) start = plain at visited ⊢
    obtain ⟨failure | found, reached⟩ := plain <;> cases visited
    exact ⟨result, replaced, acted⟩
  · rw [noted] at visited
    generalize outcome (visit render pipeline.positions) start = plain at visited ⊢
    obtain ⟨failure' | found, reached⟩ := plain <;> cases visited
    exact ⟨failure, acted⟩

end Pipeline

end StepQuery
