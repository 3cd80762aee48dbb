import Mathlib
import StepQuery.Proofs.Reference.Traversal

/-!
What resolving computes.  `Unfolds` replaces every known name by the unfolding of what it stands for,
again and again, and remembers nothing on the way.  Resolving keeps a table of the pipelines it has
resolved and copies them where they are used; whenever it returns a pipeline, that is the one
unfolding there is.
-/

namespace StepQuery

/-- The pipeline a reference stands for.  An unknown name stands for the rows of a collection. -/
def Reference.target (scope : Scope) : Reference → Pipeline
  | .named name => (Fields.get? scope name).getD [.domain name]
  | .inline steps => steps

/-- The unfolding of a pipeline.  A domain step that names a pipeline is replaced by the unfolding of
that pipeline, an appended or joined reference by the unfolding of its target written in place, and
every other step is kept where it stands.  The sources of an append are unfolded one by one. -/
inductive Unfolds (scope : Scope) : Pipeline → Pipeline → Prop where
  | nil : Unfolds scope [] []
  | splice {name : String} {target found rest others : Pipeline} :
      Fields.get? scope name = some target → Unfolds scope target found →
      Unfolds scope rest others → Unfolds scope (.domain name :: rest) (found ++ others)
  | collection {name : String} {rest others : Pipeline} :
      Fields.get? scope name = none → Unfolds scope rest others →
      Unfolds scope (.domain name :: rest) (.domain name :: others)
  | appendAbsent {rest others : Pipeline} :
      Unfolds scope rest others →
      Unfolds scope (.append none :: rest) (.append (some []) :: others)
  | appendNil {rest others : Pipeline} :
      Unfolds scope rest others →
      Unfolds scope (.append (some []) :: rest) (.append (some []) :: others)
  | appendCons {source : Reference} {sources unfolded : List Reference}
      {found rest others : Pipeline} :
      Unfolds scope (source.target scope) found →
      Unfolds scope (.append (some sources) :: rest) (.append (some unfolded) :: others) →
      Unfolds scope (.append (some (source :: sources)) :: rest)
        (.append (some (.inline found :: unfolded)) :: others)
  | join {right : Reference} {type : String} {on : ColumnPairs} {found rest others : Pipeline} :
      Unfolds scope (right.target scope) found → Unfolds scope rest others →
      Unfolds scope (.join right type on :: rest) (.join (.inline found) type on :: others)
  | transform {operation : Operation} {rest others : Pipeline} :
      Unfolds scope rest others →
      Unfolds scope (.transform operation :: rest) (.transform operation :: others)

namespace Unfolds

variable {scope : Scope}

/-- There is one unfolding at most. -/
theorem unique {pipeline first second : Pipeline} (one : Unfolds scope pipeline first)
    (other : Unfolds scope pipeline second) : first = second := by
  induction one generalizing second with
  | nil =>
    cases other
    rfl
  | splice known _ _ targetHypothesis restHypothesis =>
    cases other with
    | splice known' unfolded rest =>
      rw [known, Option.some.injEq] at known'
      subst known'
      rw [targetHypothesis unfolded, restHypothesis rest]
    | collection unknown rest => simp [known] at unknown
  | collection unknown _ restHypothesis =>
    cases other with
    | splice known unfolded rest => simp [unknown] at known
    | collection unknown' rest => rw [restHypothesis rest]
  | appendAbsent _ restHypothesis =>
    cases other with
    | appendAbsent rest => rw [restHypothesis rest]
  | appendNil _ restHypothesis =>
    cases other with
    | appendNil rest => rw [restHypothesis rest]
  | appendCons _ _ sourceHypothesis restHypothesis =>
    cases other with
    | appendCons source rest =>
      have same := restHypothesis rest
      simp only [List.cons.injEq, Step.append.injEq, Option.some.injEq] at same
      rw [sourceHypothesis source, same.1, same.2]
  | join _ _ rightHypothesis restHypothesis =>
    cases other with
    | join right rest => rw [rightHypothesis right, restHypothesis rest]
  | transform _ restHypothesis =>
    cases other with
    | transform rest => rw [restHypothesis rest]

theorem append {first second unfoldedFirst unfoldedSecond : Pipeline}
    (one : Unfolds scope first unfoldedFirst) (other : Unfolds scope second unfoldedSecond) :
    Unfolds scope (first ++ second) (unfoldedFirst ++ unfoldedSecond) := by
  induction one with
  | nil => exact other
  | splice known unfolded _ _ restHypothesis =>
    rw [List.append_assoc]
    exact .splice known unfolded restHypothesis
  | collection unknown _ restHypothesis => exact .collection unknown restHypothesis
  | appendAbsent _ restHypothesis => exact .appendAbsent restHypothesis
  | appendNil _ restHypothesis => exact .appendNil restHypothesis
  | appendCons source _ _ restHypothesis => exact .appendCons source restHypothesis
  | join right _ _ restHypothesis => exact .join right restHypothesis
  | transform _ restHypothesis => exact .transform restHypothesis

end Unfolds

namespace Resolving

/-- What looking a name up has to answer: nothing for an unknown name, otherwise the unfolding. -/
def Found (scope : Scope) (name : String) : Option Pipeline → Prop
  | none => Fields.get? scope name = none
  | some found => ∃ target, Fields.get? scope name = some target ∧ Unfolds scope target found

section Walk

variable {scope : Scope} {find : String → Resolving (Option Pipeline)}
  {invariant : Progress → Prop} {refused : Failure → Prop}

/-- A look-up that keeps an invariant and answers the unfolding of a name. -/
def Looks (scope : Scope) (find : String → Resolving (Option Pipeline))
    (invariant : Progress → Prop) (refused : Failure → Prop) (name : String) : Prop :=
  Ensures invariant (find name)
    (fun found progress => invariant progress ∧ Found scope name found) refused

theorem ensures_reference_named {name : String} (looks : Looks scope find invariant refused name) :
    Ensures invariant (reference find (.named name))
      (fun found progress => invariant progress ∧
        ∃ steps, found = .inline steps ∧ Unfolds scope ((Reference.named name).target scope) steps)
      refused := by
  rw [reference]
  refine ensures_bind looks fun found => ?_
  cases found with
  | none =>
    apply ensures_pure
    rintro progress ⟨kept, unknown : Fields.get? scope name = none⟩
    refine ⟨kept, [.domain name], rfl, ?_⟩
    rw [Reference.target, unknown]
    exact .collection unknown .nil
  | some found =>
    apply ensures_pure
    rintro progress ⟨kept, target, known, unfolded⟩
    refine ⟨kept, found, rfl, ?_⟩
    rw [Reference.target, known]
    exact unfolded

theorem ensures_step_domain {name : String} (looks : Looks scope find invariant refused name)
    (index : Nat) :
    Ensures invariant (step find index (.domain name))
      (fun found progress => invariant progress ∧ Unfolds scope [.domain name] found) refused := by
  rw [step]
  refine ensures_bind looks fun found => ?_
  cases found with
  | none =>
    apply ensures_pure
    rintro progress ⟨kept, unknown⟩
    exact ⟨kept, .collection unknown .nil⟩
  | some found =>
    apply ensures_pure
    rintro progress ⟨kept, target, known, unfolded⟩
    refine ⟨kept, ?_⟩
    simpa using Unfolds.splice known unfolded .nil

/-- A failure that passes a place without a kind stays as it was seen. -/
def Outward (refused : Failure → Prop) : Prop :=
  ∀ place failure, Place.kind? place = none → refused failure → refused (failure.within place)

mutual

/-- Resolving a pipeline computes its unfolding, if looking up each name it mentions does. -/
theorem ensures_steps (outward : Outward refused) : (index : Nat) → (pipeline : List Step) →
    (∀ name ∈ Pipeline.mentions pipeline, Looks scope find invariant refused name) →
    Ensures invariant (steps find index pipeline)
      (fun found progress => invariant progress ∧ Unfolds scope pipeline found) refused
  | _, [], _ => by
    rw [steps]
    exact ensures_pure fun progress kept => ⟨kept, .nil⟩
  | index, first :: rest, looks => by
    simp only [Pipeline.mentions, List.mem_append] at looks
    rw [steps]
    refine ensures_bind (ensures_step outward index first fun name named => looks name (.inl named))
      fun found => ?_
    -- The unfolding of the first step is no fact about the progress: it is set aside here.
    rintro progress ⟨kept, unfoldedFirst⟩
    refine ensures_bind (ensures_steps outward (index + 1) rest
      fun name named => looks name (.inr named)) (fun others => ?_) progress kept
    apply ensures_pure
    rintro progress ⟨kept, unfoldedRest⟩
    exact ⟨kept, unfoldedFirst.append unfoldedRest⟩

theorem ensures_step (outward : Outward refused) : (index : Nat) → (first : Step) →
    (∀ name ∈ first.mentions, Looks scope find invariant refused name) →
    Ensures invariant (step find index first)
      (fun found progress => invariant progress ∧ Unfolds scope [first] found) refused
  | index, .domain name, looks =>
    ensures_step_domain (looks name (by simp [Step.mentions])) index
  | _, .append none, _ => by
    rw [step]
    exact ensures_pure fun progress kept => ⟨kept, .appendAbsent .nil⟩
  | index, .append (some sources), looks => by
    rw [Step.mentions] at looks
    rw [step]
    refine ensures_bind (ensures_references outward index 0 sources looks) fun found => ?_
    exact ensures_pure fun progress unfolded => unfolded
  | index, .join right type on, looks => by
    rw [Step.mentions] at looks
    rw [step]
    refine ensures_bind (ensures_inside (outward _ · rfl)
      (ensures_reference outward right looks)) fun found => ?_
    rintro progress ⟨kept, steps, rfl, unfolded⟩
    rw [copyList_eq]
    exact ⟨kept, .join unfolded .nil⟩
  | _, .transform operation, _ => by
    rw [step, Operation.copy_eq]
    exact ensures_pure fun progress kept => ⟨kept, .transform .nil⟩

theorem ensures_references (outward : Outward refused) (index : Nat) :
    (source : Nat) → (sources : List Reference) →
    (∀ name ∈ Reference.mentionsOf sources, Looks scope find invariant refused name) →
    Ensures invariant (references find index source sources)
      (fun found progress => invariant progress ∧
        Unfolds scope [.append (some sources)] [.append (some found)]) refused
  | _, [], _ => by
    rw [references]
    exact ensures_pure fun progress kept => ⟨kept, .appendNil .nil⟩
  | source, first :: rest, looks => by
    simp only [Reference.mentionsOf, List.mem_append] at looks
    rw [references]
    refine ensures_bind (ensures_inside (outward _ · rfl)
      (ensures_reference outward first fun name named => looks name (.inl named))) fun found => ?_
    rintro progress ⟨kept, steps, rfl, unfoldedFirst⟩
    refine ensures_bind
      (ensures_references outward index (source + 1) rest
        fun name named => looks name (.inr named))
      (fun others => ?_) progress kept
    apply ensures_pure
    rintro progress ⟨kept, unfoldedRest⟩
    exact ⟨kept, .appendCons unfoldedFirst unfoldedRest⟩

theorem ensures_reference (outward : Outward refused) : (written : Reference) →
    (∀ name ∈ written.mentions, Looks scope find invariant refused name) →
    Ensures invariant (reference find written)
      (fun found progress => invariant progress ∧
        ∃ steps, found = .inline steps ∧ Unfolds scope (written.target scope) steps) refused
  | .named name, looks => ensures_reference_named (looks name (by simp [Reference.mentions]))
  | .inline pipeline, looks => by
    rw [Reference.mentions] at looks
    rw [reference]
    refine ensures_bind (ensures_steps outward 0 pipeline looks) fun found => ?_
    apply ensures_pure
    rintro progress ⟨kept, unfolded⟩
    exact ⟨kept, found, rfl, unfolded⟩

end

end Walk

/-- Every pipeline in the table is the unfolding of its name. -/
def TableUnfolds (scope : Scope) (progress : Progress) : Prop :=
  ∀ name found, Fields.get? progress.resolved name = some found → Found scope name (some found)

theorem TableUnfolds.set {scope : Scope} {progress : Progress} (sound : TableUnfolds scope progress)
    {name : String} {found : Pipeline} (unfolded : Found scope name (some found)) :
    TableUnfolds scope
      { progress with resolved := Fields.set name found progress.resolved } := by
  intro other held looked
  by_cases same : name = other
  · subst same
    rw [Fields.get?_set_self, Option.some.injEq] at looked
    exact looked ▸ unfolded
  · rw [Fields.get?_set_of_ne same] at looked
    exact sound other held looked

theorem ensures_link_table (scope : Scope) (owner name : String) :
    Ensures (TableUnfolds scope) (link owner name)
      (fun _ progress => TableUnfolds scope progress) fun _ => True := by
  intro progress sound
  rw [link_apply]
  split_ifs
  · trivial
  · exact sound
  · cases Links.path? progress.links name owner with
    | some path => trivial
    | none => exact sound

/-- Looking a name up answers its unfolding, whatever has been resolved before. -/
theorem looks_find (scope : Scope) (depth : Nat) (owner name : String) :
    Looks scope (find scope depth owner) (TableUnfolds scope) (fun _ => True) name := by
  induction depth generalizing owner name with
  | zero => exact fun progress sound => trivial
  | succ depth inductionHypothesis =>
    simp only [Looks, find, Pipeline.copy_eq]
    cases known : Fields.get? scope name with
    | none => exact ensures_pure fun progress sound => ⟨sound, known⟩
    | some target =>
      refine ensures_bind (ensures_link_table scope owner name) fun _ => ?_
      refine ensures_get fun seen sound => ?_
      cases looked : Fields.get? seen.resolved name with
      | some held =>
        refine ensures_pure ?_
        rintro _ rfl
        exact ⟨sound, sound name held looked⟩
      | none =>
        refine ensures_bind (ensures_mono (ensures_steps (fun _ _ _ _ => trivial) 0 target
          fun inner _ => inductionHypothesis name inner) ?_ fun _ _ => id) fun found => ?_
        · rintro _ rfl
          exact sound
        · intro progress ⟨sound, unfolded⟩
          exact ⟨sound.set ⟨target, known, unfolded⟩, target, known, unfolded⟩

end Resolving

namespace Pipeline

theorem resolve_eq_ok_iff {pipeline resolved : Pipeline} {scope : Scope} :
    pipeline.resolve scope = .ok resolved ↔
      ∃ progress, pipeline.resolveAll scope = .ok (resolved, progress) := by
  rw [resolve]
  cases pipeline.resolveAll scope with
  | error failure => simp [Except.map]
  | ok found => simp [Except.map, Prod.ext_iff]

/-- Resolving, when it returns a pipeline, returns the unfolding. -/
theorem unfolds_of_resolve {pipeline resolved : Pipeline} {scope : Scope}
    (returned : pipeline.resolve scope = .ok resolved) : Unfolds scope pipeline resolved := by
  have ensured := Resolving.ensures_steps (fun _ _ _ _ => trivial) 0 pipeline
    (fun name _ => Resolving.looks_find scope (scope.length + 1) root name) ⟨[], []⟩
    (fun name found looked => by simp at looked)
  obtain ⟨progress, ran⟩ := resolve_eq_ok_iff.mp returned
  rw [← resolveAll_eq, ran] at ensured
  exact ensured.2

/-- Whenever resolving returns a pipeline, that is the one unfolding there is: neither the table of
resolved pipelines nor the copies taken from it show, in whatever order the names are met. -/
theorem unfolds_iff_eq_resolved {pipeline resolved : Pipeline} {scope : Scope}
    (returned : pipeline.resolve scope = .ok resolved) (unfolded : Pipeline) :
    Unfolds scope pipeline unfolded ↔ unfolded = resolved := by
  constructor
  · intro other
    exact other.unique (unfolds_of_resolve returned)
  · rintro rfl
    exact unfolds_of_resolve returned

/-- Two pipelines that bring in a third, which a name in the middle of the second reaches again. -/
def diamond : Scope :=
  [("base", [.domain "raw", .transform (.lowercase "city")]), ("left", [.domain "base"]),
    ("right", [.domain "base", .append (some [.named "base", .inline [.domain "left"]])])]

theorem unfolds_diamond :
    Unfolds diamond [.domain "left", .join (.named "right") "inner" none, .append none]
      [.domain "raw", .transform (.lowercase "city"),
        .join (.inline [.domain "raw", .transform (.lowercase "city"),
          .append (some [.inline [.domain "raw", .transform (.lowercase "city")],
            .inline [.domain "raw", .transform (.lowercase "city")]])]) "inner" none,
        .append (some [])] :=
  (unfolds_iff_eq_resolved (by cbv) _).mpr rfl

end Pipeline

end StepQuery
