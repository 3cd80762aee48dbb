import Mathlib
import StepQuery.Proofs.Reference.Traversal
import StepQuery.Proofs.Template.Rendering

/-!
Rendering and resolving commute.  Rendering changes no name and no place, so resolving a rendered
pipeline in a rendered scope takes the same steps as resolving what they were rendered from: at every
moment the links are the same, and the tables hold, under the same names, pipelines and their
renderings.
-/

namespace StepQuery

open Interpolation (Rendering Gives Renders RendersReference RendersStep)

variable {render : String → Rendering Id Value}

namespace Fields

variable (render) in
/-- The same names stand for pipelines and their renderings. -/
def Renders (written rendered : Fields Pipeline) : Prop :=
  List.Forall₂ (fun entry other => other.1 = entry.1 ∧ Interpolation.Renders render entry.2 other.2)
    written rendered

theorem Renders.get? {written rendered : Fields Pipeline} (renders : Renders render written rendered)
    (name : String) :
    Option.Rel (Interpolation.Renders render) (get? written name) (get? rendered name) := by
  induction renders with
  | nil => exact .none
  | @cons entry other rest others first later inductionHypothesis =>
    rw [get?_cons, get?_cons, first.1]
    by_cases same : entry.1 = name
    · rw [if_pos same, if_pos same]
      exact .some first.2
    · rw [if_neg same, if_neg same]
      exact inductionHypothesis

theorem Renders.set {written rendered : Fields Pipeline} (renders : Renders render written rendered)
    {found other : Pipeline} (rendersFound : Interpolation.Renders render found other)
    (name : String) : Renders render (set name found written) (set name other rendered) := by
  induction renders with
  | nil => exact .cons ⟨rfl, rendersFound⟩ .nil
  | @cons entry entry' rest others first later inductionHypothesis =>
    simp only [Fields.set, first.1]
    split_ifs
    · exact .cons ⟨rfl, rendersFound⟩ later
    · exact .cons ⟨rfl, rendersFound⟩ (.cons ⟨rfl, first.2⟩ later)
    · exact .cons ⟨rfl, first.2⟩ inductionHypothesis

end Fields

namespace Resolving

variable {α β γ δ : Type}

variable (render) in
/-- Two states of resolving of which the second has rendered pipelines in its table. -/
structure Matches (written rendered : Progress) : Prop where
  links : rendered.links = written.links
  resolved : Fields.Renders render written.resolved rendered.resolved

variable (render) in
/-- Run on matching states, both actions fail in the same way, or both succeed with related results
and matching states. -/
def Follows (related : α → β → Prop) (action : Resolving α) (other : Resolving β) : Prop :=
  ∀ written rendered, Matches render written rendered →
    match action written, other rendered with
    | .ok (result, reached), .ok (result', reached') =>
      related result result' ∧ Matches render reached reached'
    | .error failure, .error failure' => failure = failure'
    | _, _ => False

theorem follows_pure {related : α → β → Prop} {result : α} {other : β}
    (relates : related result other) : Follows render related (pure result) (pure other) :=
  fun _ _ starts => ⟨relates, starts⟩

theorem follows_bind {related : α → β → Prop} {ending : γ → δ → Prop} {action : Resolving α}
    {other : Resolving β} {next : α → Resolving γ} {next' : β → Resolving δ}
    (first : Follows render related action other)
    (second : ∀ result result', related result result' →
      Follows render ending (next result) (next' result')) :
    Follows render ending (action >>= next) (other >>= next') := by
  intro written rendered starts
  have reached := first written rendered starts
  change match action written >>= fun outcome => next outcome.1 outcome.2,
      other rendered >>= fun outcome => next' outcome.1 outcome.2 with
    | .ok (result, reached), .ok (result', reached') =>
      ending result result' ∧ Matches render reached reached'
    | .error failure, .error failure' => failure = failure'
    | _, _ => False
  cases outcome : action written <;> cases outcome' : other rendered <;>
    rw [outcome, outcome'] at reached
  · exact reached
  · exact False.elim reached
  · exact False.elim reached
  · exact second _ _ reached.1 _ _ reached.2

theorem follows_inside {related : α → β → Prop} {action : Resolving α} {other : Resolving β}
    (place : Place) (follows : Follows render related action other) :
    Follows render related (inside place action) (inside place other) := by
  intro written rendered starts
  have reached := follows written rendered starts
  simp only [inside, Attempt.inside]
  cases outcome : action written <;> cases outcome' : other rendered <;>
    rw [outcome, outcome'] at reached
  · exact congrArg (Failure.within place) reached
  · exact False.elim reached
  · exact False.elim reached
  · exact reached

theorem follows_get {related : α → β → Prop} {next : Progress → Resolving α}
    {next' : Progress → Resolving β}
    (follows : ∀ written rendered, Matches render written rendered →
      Follows render related (next written) (next' rendered)) :
    Follows render related (get >>= next) (get >>= next') :=
  fun written rendered starts => follows written rendered starts written rendered starts

theorem follows_link (owner name : String) :
    Follows render (fun _ _ => True) (link owner name) (link owner name) := by
  intro written rendered starts
  rw [link_apply, link_apply, starts.links]
  split_ifs
  · exact rfl
  · exact ⟨trivial, starts⟩
  · cases Links.path? written.links name owner with
    | some path => exact rfl
    | none => exact ⟨trivial, rfl, starts.resolved⟩

section Walk

variable {find find' : String → Resolving (Option Pipeline)}

variable (render) in
/-- Two ways of looking names up of which the second finds renderings of what the first finds. -/
def Alike (find find' : String → Resolving (Option Pipeline)) : Prop :=
  ∀ name, Follows render (Option.Rel (Renders render)) (find name) (find' name)

mutual

/-- If looking names up follows, so does resolving a rendered pipeline. -/
theorem follows_steps (looks : Alike render find find') :
    (index : Nat) → (written : List Step) → (rendered : List Step) →
    Renders render written rendered →
    Follows render (Renders render) (steps find index written) (steps find' index rendered)
  | _, [], _, renders => by
    cases renders
    rw [steps, steps]
    exact follows_pure .nil
  | index, first :: rest, _, renders => by
    obtain ⟨found, others, rendersFirst, rendersRest, rfl⟩ :=
      List.forall₂_cons_left_iff.mp renders
    rw [steps, steps]
    refine follows_bind (follows_step looks index first found rendersFirst) fun _ _ one => ?_
    refine follows_bind (follows_steps looks (index + 1) rest others rendersRest) fun _ _ other => ?_
    exact follows_pure (List.rel_append one other)
termination_by structural _ written => written

theorem follows_step (looks : Alike render find find') : (index : Nat) → (written : Step) →
    (rendered : Step) → RendersStep render written rendered →
    Follows render (Renders render) (step find index written) (step find' index rendered)
  | _, .domain name, _, renders => by
    rw [Interpolation.rendersStep_domain.mp renders, step, step]
    refine follows_bind (looks name) fun _ _ found => ?_
    cases found with
    | none => exact follows_pure (.cons (Interpolation.rendersStep_domain.mpr rfl) .nil)
    | some rendersFound => exact follows_pure rendersFound
  | _, .append none, _, renders => by
    rw [Interpolation.rendersStep_append_none.mp renders, step, step, references]
    exact follows_pure (.cons (Interpolation.rendersStep_append_some.mpr ⟨[], .nil, rfl⟩) .nil)
  | index, .append (some sources), _, renders => by
    obtain ⟨found, rendersSources, rfl⟩ := Interpolation.rendersStep_append_some.mp renders
    rw [step, step]
    refine follows_bind (follows_references looks index 0 sources found rendersSources)
      fun _ others resolved => ?_
    exact follows_pure
      (.cons (Interpolation.rendersStep_append_some.mpr ⟨others, resolved, rfl⟩) .nil)
  | index, .join right type on, _, renders => by
    obtain ⟨found, rendersRight, rfl⟩ := Interpolation.rendersStep_join.mp renders
    rw [step, step, copyList_eq]
    refine follows_bind (follows_inside _ (follows_reference looks right found rendersRight))
      fun _ other resolved => ?_
    exact follows_pure (.cons (Interpolation.rendersStep_join.mpr ⟨other, resolved, rfl⟩) .nil)
  | _, .transform operation, _, renders => by
    obtain ⟨found, rendersOperation, rfl⟩ := Interpolation.rendersStep_transform.mp renders
    rw [step, step, Operation.copy_eq, Operation.copy_eq]
    exact follows_pure
      (.cons (Interpolation.rendersStep_transform.mpr ⟨found, rendersOperation, rfl⟩) .nil)
termination_by structural _ written => written

theorem follows_references (looks : Alike render find find') (index : Nat) : (source : Nat) →
    (written : List Reference) → (rendered : List Reference) →
    List.Forall₂ (RendersReference render) written rendered →
    Follows render (List.Forall₂ (RendersReference render))
      (references find index source written) (references find' index source rendered)
  | _, [], _, renders => by
    cases renders
    rw [references, references]
    exact follows_pure .nil
  | source, first :: rest, _, renders => by
    obtain ⟨found, others, rendersFirst, rendersRest, rfl⟩ :=
      List.forall₂_cons_left_iff.mp renders
    rw [references, references]
    refine follows_bind (follows_inside _ (follows_reference looks first found rendersFirst))
      fun _ _ one => ?_
    refine follows_bind (follows_references looks index (source + 1) rest others rendersRest)
      fun _ _ other => ?_
    exact follows_pure (.cons one other)
termination_by structural _ written => written

theorem follows_reference (looks : Alike render find find') :
    (written : Reference) → (rendered : Reference) →
    RendersReference render written rendered →
    Follows render (RendersReference render) (reference find written) (reference find' rendered)
  | .named name, _, renders => by
    rw [Interpolation.rendersReference_named.mp renders, reference, reference]
    refine follows_bind (looks name) fun _ _ found => ?_
    cases found with
    | none =>
      refine follows_pure (Interpolation.rendersReference_inline.mpr ⟨_, ?_, rfl⟩)
      exact .cons (Interpolation.rendersStep_domain.mpr rfl) .nil
    | some rendersFound =>
      exact follows_pure (Interpolation.rendersReference_inline.mpr ⟨_, rendersFound, rfl⟩)
  | .inline written, _, renders => by
    obtain ⟨found, rendersSteps, rfl⟩ := Interpolation.rendersReference_inline.mp renders
    rw [reference, reference]
    refine follows_bind (follows_steps looks 0 written found rendersSteps) fun _ other resolved => ?_
    exact follows_pure (Interpolation.rendersReference_inline.mpr ⟨other, resolved, rfl⟩)
termination_by structural written => written

end

end Walk

/-- Looking a name up in a rendered scope follows looking it up in the scope as written. -/
theorem alike_find {scope scope' : Scope} (renders : Fields.Renders render scope scope')
    (depth : Nat) (owner : String) :
    Alike render (find scope depth owner) (find scope' depth owner) := by
  induction depth generalizing owner with
  | zero => exact fun name written rendered _ => rfl
  | succ depth inductionHypothesis =>
    intro name
    simp only [find, Pipeline.copy_eq]
    have known := renders.get? name
    cases target : Fields.get? scope name <;> cases target' : Fields.get? scope' name <;>
      rw [target, target'] at known
    · exact follows_pure .none
    · cases known
    · cases known
    · cases known with
      | some rendersTarget =>
        refine follows_bind (follows_link owner name) fun _ _ _ => ?_
        refine follows_get fun seen seen' alike => ?_
        have table := alike.resolved.get? name
        cases held : Fields.get? seen.resolved name <;>
          cases held' : Fields.get? seen'.resolved name <;> rw [held, held'] at table
        · refine follows_bind
            (follows_steps (inductionHypothesis name) 0 _ _ rendersTarget) fun _ _ found => ?_
          intro written rendered starts
          exact ⟨.some found, starts.links, starts.resolved.set found name⟩
        · cases table
        · cases table
        · exact follows_pure table

end Resolving

namespace Pipeline

/-- Rendering what resolving returns is the same as resolving what was rendered, in the scope of the
rendered pipelines: both succeed with the same pipeline, or both fail in the same way. -/
theorem resolve_bind_interpolate (render : String → Rendering Id Value) {pipeline rendered : Pipeline}
    {scope renderedScope : Scope} (renders : (pipeline.interpolate render).run.run = .ok rendered)
    (rendersScope : List.Forall₂ (fun entry other => other.1 = entry.1 ∧
      (Pipeline.interpolate entry.2 render).run.run = .ok other.2) scope renderedScope) :
    ((pipeline.resolve scope).bind fun resolved => (resolved.interpolate render).run.run) =
      rendered.resolve renderedScope := by
  have scopes : Fields.Renders render scope renderedScope :=
    rendersScope.imp fun entry other same => ⟨same.1, Interpolation.gives_steps.mp same.2⟩
  have pipelines : Renders render pipeline rendered := Interpolation.gives_steps.mp renders
  have follows := Resolving.follows_steps
    (Resolving.alike_find scopes (scope.length + 1) root) 0 pipeline rendered pipelines
    ⟨[], []⟩ ⟨[], []⟩ ⟨rfl, .nil⟩
  have sameDepth := resolveAll_eq rendered renderedScope
  rw [← scopes.length_eq] at sameDepth
  rw [← resolveAll_eq, ← sameDepth] at follows
  rw [resolve, resolve]
  cases outcome : pipeline.resolveAll scope <;>
    cases outcome' : rendered.resolveAll renderedScope <;> rw [outcome, outcome'] at follows
  · exact congrArg Except.error follows
  · exact False.elim follows
  · exact False.elim follows
  · exact Interpolation.gives_steps.mpr follows.1

/-- A renderer that shows where it has been, on templates in front of, inside and behind what a name
brings in. -/
theorem resolve_bind_interpolate_marked :
    let render : String → Rendering Id Value := fun template => pure (.text ("<" ++ template ++ ">"))
    let marked : Step := .transform (.text "kind" (.text "<base>"))
    ((Pipeline.resolve [.domain "base", .append (some [.inline [.domain "base"], .named "more"]),
        .transform (.formula "sum" (.text "a + b"))]
        [("base", [.domain "raw", .transform (.text "kind" (.text "base"))])]).bind
      fun resolved => (Pipeline.interpolate resolved render).run.run) =
        .ok [.domain "raw", marked,
          .append (some [.inline [.domain "raw", marked], .inline [.domain "more"]]),
          .transform (.formula "sum" (.text "<a + b>"))] := by
  intro render marked
  have rendersBase : List.Forall₂ (fun (entry other : String × Pipeline) => other.1 = entry.1 ∧
      (Pipeline.interpolate entry.2 render).run.run = .ok other.2)
      [("base", [.domain "raw", .transform (.text "kind" (.text "base"))])]
      [("base", [.domain "raw", marked])] := .cons ⟨rfl, rfl⟩ .nil
  rw [resolve_bind_interpolate render rfl rendersBase]
  cbv

end Pipeline

end StepQuery
