import Mathlib
import StepQuery.Expression.Evaluation
import StepQuery.Proofs.Template.Positions
import StepQuery.Proofs.Template.Rendering
import StepQuery.Template.Basic

/-!
Rendering a pipeline that has been rendered before.  What the first rendering put in the place of a
template may be a text again, and nothing tells that text from a template: the second rendering reads
it like any other.  So a rendered pipeline is left as it is exactly if all texts at its positions
render to themselves.  A value from outside that looks like a template does not.
-/

namespace StepQuery

open Interpolation (Rendering Gives)

/-- Every template at the positions renders to itself. -/
def Position.Stable (render : String → Rendering Id Value) (positions : List Position) : Prop :=
  ∀ template ∈ positions.filterMap template?, Gives (render template) (.text template)

namespace Interpolation

open Position (Stable)

variable {render : String → Rendering Id Value}

@[simp]
theorem stable_nil : Stable render [] := by
  simp [Stable]

@[simp]
theorem stable_append {positions later : List Position} :
    Stable render (positions ++ later) ↔ Stable render positions ∧ Stable render later := by
  simp only [Stable, List.filterMap_append, List.forall_mem_append]

section Parts

-- Each of these parts renders to itself exactly if the templates at its positions do, whether or not
-- it comes from a rendering.  The limit of a top step does not: it may be a number written as a text.

theorem gives_value_self (held : Value) :
    Gives (value render held) held ↔ Stable render held.positions := by
  cases held with
  | text template => simp [value, Value.positions, Stable, Position.template?]
  | _ => simp [value, Value.positions]

theorem gives_values_self (items : List Value) :
    Gives (values render items) items ↔ Stable render (items.flatMap Value.positions) := by
  induction items with
  | nil => simp [values]
  | cons first rest inductionHypothesis =>
    simp [values, gives_bind, gives_map, gives_value_self, inductionHypothesis]

theorem gives_comparedValue_self (held : Value) :
    Gives (comparedValue render held) held ↔ Stable render held.comparedPositions := by
  cases held with
  | list items => simp [comparedValue, Value.comparedPositions, gives_map, gives_values_self]
  | _ =>
    rw [comparedValue, Value.comparedPositions, gives_value_self] <;> simp

mutual

theorem gives_condition_self : (held : Condition) →
    (Gives (condition render held) held ↔ Stable render held.positions)
  | .absent => by simp [condition, Condition.positions]
  | .simple comparison => by
    obtain ⟨column, operator, held⟩ := comparison
    rw [condition, Condition.positions, ← gives_comparedValue_self]
    simp [gives_map]
  | .all children => by
    rw [condition, Condition.positions, ← gives_conditions_self children]
    simp [gives_map]
  | .any children => by
    rw [condition, Condition.positions, ← gives_conditions_self children]
    simp [gives_map]

theorem gives_conditions_self : (children : List Condition) →
    (Gives (conditions render children) children ↔ Stable render (Condition.positionsOf children))
  | [] => by simp [conditions, Condition.positionsOf]
  | first :: rest => by
    rw [conditions, Condition.positionsOf, stable_append, ← gives_condition_self first,
      ← gives_conditions_self rest]
    simp [gives_bind, gives_map]

end

theorem gives_branch_self (held : Branch) :
    Gives (branch render held) held ↔ Stable render held.positions := by
  induction held with
  | last test consequent alternative =>
    simp [branch, Branch.positions, gives_bind, gives_map, gives_condition_self, gives_value_self]
  | chain test consequent next inductionHypothesis =>
    simp [branch, Branch.positions, gives_bind, gives_map, gives_condition_self, gives_value_self,
      inductionHypothesis]

theorem gives_replacements_self (index : Nat) (pairs : List (Value × Value)) :
    Gives (replacements render index pairs) pairs ↔
      Stable render (pairs.flatMap fun pair => pair.1.positions ++ pair.2.positions) := by
  induction pairs generalizing index with
  | nil => simp [replacements]
  | cons pair rest inductionHypothesis =>
    obtain ⟨old, new⟩ := pair
    simp [replacements, gives_bind, gives_map, gives_value_self, inductionHypothesis]

end Parts

/-- What a value is coerced to is a number: no template, and coerced to itself. -/
theorem number_of_number {held found : Value} (coerced : Casting.number held = .ok found) :
    Casting.number found = .ok found ∧ ∀ template, found ≠ .text template := by
  cases held with
  | int _ | uint _ | single _ | double _ | decimal _ =>
    cases coerced
    exact ⟨rfl, nofun⟩
  | text written =>
    rw [Casting.number] at coerced
    split at coerced
    · cases coerced
    · split at coerced <;> cases coerced <;> exact ⟨rfl, nofun⟩
  | _ => cases coerced

theorem gives_limit_rendered {held found : Value} (renders : Gives (limit render held) found) :
    Gives (limit render found) found ∧ Stable render [.limit found] := by
  simp only [limit, gives_bind, gives_inside, gives_attempt] at renders
  obtain ⟨middle, -, coerced⟩ := renders
  obtain ⟨kept, noText⟩ := number_of_number coerced
  constructor
  · simp only [limit, gives_bind, gives_inside, gives_attempt]
    refine ⟨found, ?_, kept⟩
    rw [value, Value.copy_eq, gives_pure]
    exact noText
  · cases found with
    | text template => exact absurd rfl (noText template)
    | _ => simp [Stable, Position.template?]

theorem gives_top {written : Operation} {groups : ColumnList} {rankOn order : String} {found : Value}
    (renders : Gives (operation render written) (.top groups rankOn order found)) :
    ∃ held, Gives (limit render held) found := by
  cases written with
  | replace column pairs => cases pairs <;> simp [operation, gives_map] at renders
  | top groups rankOn order held =>
    simp only [operation, gives_bind, gives_pure, Operation.top.injEq] at renders
    obtain ⟨_, limited, -, -, -, rfl⟩ := renders
    exact ⟨held, limited⟩
  | _ => simp [operation, gives_map] at renders

/-- What an operation is rendered to renders to itself exactly if the templates at its positions
do. -/
theorem gives_operation_rendered {written rendered : Operation}
    (renders : Gives (operation render written) rendered) :
    Gives (operation render rendered) rendered ↔ Stable render rendered.positions := by
  cases rendered with
  | filter held => simp [operation, Operation.positions, gives_map, gives_condition_self]
  | formula newColumn held => simp [operation, Operation.positions, gives_map, gives_value_self]
  | fillna columns held => simp [operation, Operation.positions, gives_map, gives_value_self]
  | text newColumn held => simp [operation, Operation.positions, gives_map, gives_value_self]
  | replace column pairs =>
    cases pairs with
    | none => simp [operation, Operation.positions]
    | some pairs => simp [operation, Operation.positions, gives_map, gives_replacements_self]
  | top groups rankOn order found =>
    obtain ⟨held, limited⟩ := gives_top renders
    obtain ⟨kept, stable⟩ := gives_limit_rendered limited
    simp [operation, Operation.positions, gives_map, kept, stable]
  | ifThenElse newColumn held =>
    simp [operation, Operation.positions, gives_map, gives_branch_self]
  | _ => simp [operation, Operation.positions]

mutual

/-- A rendered pipeline renders to itself exactly if the templates at its positions do. -/
theorem renders_rendered : (written : List Step) → {rendered : List Step} →
    Renders render written rendered →
    (Renders render rendered rendered ↔ Stable render (Pipeline.positions rendered))
  | [], _, .nil => by simp [Renders, Pipeline.positions]
  | first :: rest, _, .cons one others => by
    rw [Pipeline.positions, stable_append, ← rendersStep_rendered first one,
      ← renders_rendered rest others]
    exact List.forall₂_cons

theorem rendersStep_rendered : (written : Step) → {rendered : Step} →
    RendersStep render written rendered →
    (RendersStep render rendered rendered ↔ Stable render rendered.positions)
  | .domain name, _, renders => by
    obtain rfl := rendersStep_domain.mp renders
    simp [Step.positions]
  | .append none, _, renders => by
    -- The absent list has become an empty one, which stays.
    obtain rfl := rendersStep_append_none.mp renders
    simp [rendersStep_append_some, Step.positions, Reference.positionsOf]
  | .append (some sources), _, renders => by
    obtain ⟨found, references, rfl⟩ := rendersStep_append_some.mp renders
    rw [Step.positions, ← rendersReferences_rendered sources references]
    simp [rendersStep_append_some]
  | .join right type on, _, renders => by
    obtain ⟨found, reference, rfl⟩ := rendersStep_join.mp renders
    rw [Step.positions, ← rendersReference_rendered right reference]
    simp [rendersStep_join]
  | .transform held, _, renders => by
    obtain ⟨found, operation, rfl⟩ := rendersStep_transform.mp renders
    rw [Step.positions, ← gives_operation_rendered operation]
    simp [rendersStep_transform]

theorem rendersReferences_rendered : (written : List Reference) → {rendered : List Reference} →
    List.Forall₂ (RendersReference render) written rendered →
    (List.Forall₂ (RendersReference render) rendered rendered ↔
      Stable render (Reference.positionsOf rendered))
  | [], _, .nil => by simp [Reference.positionsOf]
  | first :: rest, _, .cons one others => by
    rw [Reference.positionsOf, stable_append, ← rendersReference_rendered first one,
      ← rendersReferences_rendered rest others]
    exact List.forall₂_cons

theorem rendersReference_rendered : (written : Reference) → {rendered : Reference} →
    RendersReference render written rendered →
    (RendersReference render rendered rendered ↔ Stable render rendered.positions)
  | .named name, _, renders => by
    obtain rfl := rendersReference_named.mp renders
    simp [Reference.positions]
  | .inline pipeline, _, renders => by
    obtain ⟨found, steps, rfl⟩ := rendersReference_inline.mp renders
    rw [Reference.positions, ← renders_rendered pipeline steps]
    simp [rendersReference_inline]

end

end Interpolation

namespace Template

/-- Templates rendered under variables. -/
def renderer (delimiters : Delimiters) (values : Fields Value) (template : String) :
    Rendering Id Value :=
  ExceptT.mk (pure (render delimiters (Expression.evaluate? values) template))

theorem render_of_expressions_eq_nil {delimiters : Delimiters} {template : String}
    (plain : expressions delimiters template.toList = []) (evaluator : Evaluator) :
    render delimiters evaluator template = .ok (.text template) := by
  rw [expressions] at plain
  rw [render, plain]

end Template

namespace Pipeline

open Template (renderer)

/-- A template that is one variable is replaced by the value of the variable, whatever it says. -/
theorem interpolate_variable (text : String) :
    Id.run (interpolate [.domain "d", .transform (.text "t" (.text "\x7b\x7b x \x7d\x7d"))]
        (renderer .curly [("x", .text text)])).run =
      .ok [.domain "d", .transform (.text "t" (.text text))] := by
  cbv

end Pipeline

end StepQuery
