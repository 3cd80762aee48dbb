import Mathlib.Data.List.Forall2
import StepQuery.Template.Interpolation

/-!
Rendering with a pure renderer, seen through its results.  `Gives` states that a rendering succeeds,
with one rule for each way of putting renderings together.  A pipeline is rendered step by step, a
name stays as it is, and the position of a step shows in failures only.
-/

namespace StepQuery.Interpolation

variable {α β : Type}

/-- The rendering succeeds with the given result. -/
def Gives (action : Rendering Id α) (result : α) : Prop := action.run.run = .ok result

@[simp]
theorem gives_pure {result other : α} : Gives (pure result) other ↔ result = other := by
  simp [Gives]

theorem gives_bind {action : Rendering Id α} {next : α → Rendering Id β} {result : β} :
    Gives (action >>= next) result ↔ ∃ middle, Gives action middle ∧ Gives (next middle) result := by
  simp only [Gives, ExceptT.run_bind, Id.run_bind]
  cases action.run.run <;> simp

theorem gives_map {action : Rendering Id α} {build : α → β} {result : β} :
    Gives (build <$> action) result ↔ ∃ middle, Gives action middle ∧ build middle = result := by
  rw [map_eq_pure_bind, gives_bind]
  simp only [gives_pure]

theorem gives_attempt {attempt : Attempt α} {result : α} :
    Gives (ExceptT.mk (pure attempt)) result ↔ attempt = .ok result := Iff.rfl

@[simp]
theorem gives_inside {action : Rendering Id α} {place : Place} {result : α} :
    Gives (inside place action) result ↔ Gives action result := by
  simp only [Gives, inside, ExceptT.run_adapt, Id.run_map]
  cases action.run.run <;> simp [Except.mapError]

variable (render : String → Rendering Id Value)

/-- One step is the rendering of another. -/
def RendersStep (written rendered : Step) : Prop := Gives (step render written) rendered

/-- One pipeline is the rendering of another. -/
def Renders (written rendered : Pipeline) : Prop :=
  List.Forall₂ (RendersStep render) written rendered

def RendersReference (written rendered : Reference) : Prop :=
  Gives (reference render written) rendered

variable {render}

theorem gives_steps {index : Nat} {written rendered : List Step} :
    Gives (steps render index written) rendered ↔ Renders render written rendered := by
  induction written generalizing index rendered with
  | nil => simp [steps, Renders, eq_comm]
  | cons first rest inductionHypothesis =>
    simp only [steps, gives_bind, gives_inside, gives_pure, inductionHypothesis, Renders,
      List.forall₂_cons_left_iff]
    constructor
    · rintro ⟨found, first, others, rest, rfl⟩
      exact ⟨found, others, first, rest, rfl⟩
    · rintro ⟨found, others, first, rest, rfl⟩
      exact ⟨found, first, others, rest, rfl⟩

theorem gives_references {written rendered : List Reference} :
    Gives (references render written) rendered ↔
      List.Forall₂ (RendersReference render) written rendered := by
  induction written generalizing rendered with
  | nil => simp [references, eq_comm]
  | cons first rest inductionHypothesis =>
    simp only [references, gives_bind, gives_pure, inductionHypothesis, List.forall₂_cons_left_iff]
    constructor
    · rintro ⟨found, first, others, rest, rfl⟩
      exact ⟨found, others, first, rest, rfl⟩
    · rintro ⟨found, others, first, rest, rfl⟩
      exact ⟨found, first, others, rest, rfl⟩

@[simp]
theorem rendersStep_domain {name : String} {rendered : Step} :
    RendersStep render (.domain name) rendered ↔ rendered = .domain name :=
  gives_pure.trans eq_comm

@[simp]
theorem rendersStep_append_none {rendered : Step} :
    RendersStep render (.append none) rendered ↔ rendered = .append (some []) :=
  gives_pure.trans eq_comm

theorem rendersStep_append_some {sources : List Reference} {rendered : Step} :
    RendersStep render (.append (some sources)) rendered ↔
      ∃ found, List.Forall₂ (RendersReference render) sources found ∧
        rendered = .append (some found) := by
  change Gives (do return .append (some (← references render sources))) rendered ↔ _
  simp only [gives_bind, gives_references, gives_pure, @eq_comm _ _ rendered]

theorem rendersStep_join {right : Reference} {type : String} {on : ColumnPairs} {rendered : Step} :
    RendersStep render (.join right type on) rendered ↔
      ∃ found, RendersReference render right found ∧ rendered = .join found type on := by
  change Gives (do return .join (← reference render right) type (copyList on)) rendered ↔ _
  simp only [gives_bind, RendersReference, gives_pure, copyList_eq, @eq_comm _ _ rendered]

theorem rendersStep_transform {held : Operation} {rendered : Step} :
    RendersStep render (.transform held) rendered ↔
      ∃ found, Gives (operation render held) found ∧ rendered = .transform found := by
  change Gives (do return .transform (← operation render held)) rendered ↔ _
  simp only [gives_bind, gives_pure, @eq_comm _ _ rendered]

@[simp]
theorem rendersReference_named {name : String} {rendered : Reference} :
    RendersReference render (.named name) rendered ↔ rendered = .named name :=
  gives_pure.trans eq_comm

theorem rendersReference_inline {written : Pipeline} {rendered : Reference} :
    RendersReference render (.inline written) rendered ↔
      ∃ found, Renders render written found ∧ rendered = .inline found := by
  change Gives (do return .inline (← steps render 0 written)) rendered ↔ _
  simp only [gives_bind, gives_steps, gives_pure, @eq_comm _ _ rendered]

end StepQuery.Interpolation
