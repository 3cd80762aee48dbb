import StepQuery.Proofs.Fields
import StepQuery.Reference.Resolve

/-!
Resolving seen from outside.  `Ensures` states what an action does to the progress it is run on, with
one rule for each way of putting actions together; the names that a pipeline mentions are the ones
that resolving it looks up.
-/

namespace StepQuery

mutual

/-- The names in the domain, append and join steps of a pipeline, at every depth. -/
def Pipeline.mentions : List Step → List String
  | [] => []
  | first :: rest => Step.mentions first ++ Pipeline.mentions rest

def Step.mentions : Step → List String
  | .domain name => [name]
  | .append none => []
  | .append (some sources) => Reference.mentionsOf sources
  | .join right _ _ => Reference.mentions right
  | .transform _ => []

def Reference.mentions : Reference → List String
  | .named name => [name]
  | .inline steps => Pipeline.mentions steps

def Reference.mentionsOf : List Reference → List String
  | [] => []
  | first :: rest => Reference.mentions first ++ Reference.mentionsOf rest

end

namespace Resolving

variable {α β : Type}

/-- Run on any progress that satisfies `before`, the action ends with a result and a progress that
satisfy `after`, or with a failure that satisfies `refused`. -/
def Ensures (before : Progress → Prop) (action : Resolving α) (after : α → Progress → Prop)
    (refused : Failure → Prop) : Prop :=
  ∀ progress, before progress →
    match action progress with
    | .ok (result, reached) => after result reached
    | .error failure => refused failure

variable {before : Progress → Prop} {after : α → Progress → Prop} {refused : Failure → Prop}

theorem ensures_pure {result : α} (holds : ∀ progress, before progress → after result progress) :
    Ensures before (pure result) after refused := holds

theorem ensures_bind {action : Resolving α} {next : α → Resolving β}
    {ending : β → Progress → Prop} (first : Ensures before action after refused)
    (second : ∀ result, Ensures (after result) (next result) ending refused) :
    Ensures before (action >>= next) ending refused := by
  intro progress holds
  have reached := first progress holds
  change match (action progress >>= fun outcome => next outcome.1 outcome.2) with
    | .ok (result, reached) => ending result reached
    | .error failure => refused failure
  cases outcome : action progress with
  | error failure =>
    rw [outcome] at reached
    exact reached
  | ok found =>
    rw [outcome] at reached
    exact second found.1 found.2 reached

theorem ensures_inside {action : Resolving α} {place : Place}
    (kept : ∀ failure, refused failure → refused (failure.within place))
    (holds : Ensures before action after refused) :
    Ensures before (inside place action) after refused := by
  intro progress satisfied
  have reached := holds progress satisfied
  simp only [inside, Attempt.inside]
  cases outcome : action progress with
  | error failure =>
    rw [outcome] at reached
    exact kept failure reached
  | ok found =>
    rw [outcome] at reached
    exact reached

theorem ensures_mono {action : Resolving α} {earlier : Progress → Prop}
    {later : α → Progress → Prop} (holds : Ensures before action after refused)
    (weaker : ∀ progress, earlier progress → before progress)
    (stronger : ∀ result progress, after result progress → later result progress) :
    Ensures earlier action later refused := by
  intro progress satisfied
  have reached := holds progress (weaker progress satisfied)
  cases outcome : action progress with
  | error failure =>
    rw [outcome] at reached
    exact reached
  | ok found =>
    rw [outcome] at reached
    exact stronger found.1 found.2 reached

/-- Two facts about one action hold together; either tells about its failures. -/
theorem ensures_and {action : Resolving α} {earlier : Progress → Prop}
    {later : α → Progress → Prop} (one : Ensures before action after fun _ => True)
    (other : Ensures earlier action later refused) :
    Ensures (fun progress => before progress ∧ earlier progress) action
      (fun result progress => after result progress ∧ later result progress) refused := by
  intro progress satisfied
  have first := one progress satisfied.1
  have second := other progress satisfied.2
  cases outcome : action progress with
  | error failure =>
    rw [outcome] at second
    exact second
  | ok found =>
    rw [outcome] at first second
    exact ⟨first, second⟩

theorem ensures_get {next : Progress → Resolving α}
    (holds : ∀ seen, before seen → Ensures (· = seen) (next seen) after refused) :
    Ensures before (get >>= next) after refused :=
  fun progress satisfied => holds progress satisfied progress rfl

/-- What recording a reference does: it closes a cycle and is refused, or it is on record
afterwards. -/
theorem link_apply (owner name : String) (progress : Progress) :
    link owner name progress =
      if owner = name then .error (.refusal [] (.cycle [name, name]))
      else if (owner, name) ∈ progress.links then .ok ((), progress)
      else
        match Links.path? progress.links name owner with
        | some path => .error (.refusal [] (.cycle (owner :: path)))
        | none => .ok ((), { progress with links := progress.links ++ [(owner, name)] }) := by
  change (if owner = name then throw (Failure.refusal [] (Cause.cycle [name, name]))
    else if progress.links.contains (owner, name) then pure ()
    else _ : Resolving Unit) progress = _
  by_cases same : owner = name
  · simp only [same, if_true]
    rfl
  · by_cases recorded : (owner, name) ∈ progress.links
    · simp only [same, recorded, List.contains_iff_mem, if_true, if_false]
      rfl
    · simp only [same, recorded, List.contains_iff_mem, if_false]
      cases Links.path? progress.links name owner <;> rfl

end Resolving

theorem Pipeline.resolveAll_eq (pipeline : Pipeline) (scope : Scope) :
    pipeline.resolveAll scope =
      Resolving.steps (Resolving.find scope (scope.length + 1) root) 0 pipeline ⟨[], []⟩ := rfl

end StepQuery
