import StepQuery.Proofs.Reference.Unfolding

/-!
What resolving leaves.  In an unfolding every name is that of a domain step, and none of them is known
to the scope: what append and join steps refer to has been written in place.  Such a pipeline is its
own unfolding in every scope that knows none of its names, so resolving it there changes nothing.
-/

namespace StepQuery

/-- A name in a pipeline: that of a domain step, or one that an append or join step refers to. -/
inductive Mention where
  | domain (name : String)
  | reference (name : String)
deriving DecidableEq, Repr

def Mention.name : Mention → String
  | .domain name => name
  | .reference name => name

mutual

/-- The names in a pipeline at every depth, each with where it stands. -/
def Pipeline.mentioned : List Step → List Mention
  | [] => []
  | first :: rest => Step.mentioned first ++ Pipeline.mentioned rest

def Step.mentioned : Step → List Mention
  | .domain name => [.domain name]
  | .append none => []
  | .append (some sources) => Reference.mentionedOf sources
  | .join right _ _ => Reference.mentioned right
  | .transform _ => []

def Reference.mentioned : Reference → List Mention
  | .named name => [.reference name]
  | .inline steps => Pipeline.mentioned steps

def Reference.mentionedOf : List Reference → List Mention
  | [] => []
  | first :: rest => Reference.mentioned first ++ Reference.mentionedOf rest

end

mutual

/-- Apart from where they stand, these are the names that resolving looks up. -/
theorem Pipeline.map_name_mentioned : (pipeline : List Step) →
    (Pipeline.mentioned pipeline).map Mention.name = Pipeline.mentions pipeline
  | [] => rfl
  | first :: rest => by
    rw [Pipeline.mentioned, Pipeline.mentions, List.map_append, Step.map_name_mentioned first,
      Pipeline.map_name_mentioned rest]

theorem Step.map_name_mentioned : (step : Step) → step.mentioned.map Mention.name = step.mentions
  | .domain _ => by rw [Step.mentioned, Step.mentions]; rfl
  | .append none => by rw [Step.mentioned, Step.mentions]; rfl
  | .append (some sources) => by
    rw [Step.mentioned, Step.mentions, Reference.map_name_mentionedOf sources]
  | .join right _ _ => by rw [Step.mentioned, Step.mentions, Reference.map_name_mentioned right]
  | .transform _ => by rw [Step.mentioned, Step.mentions]; rfl

theorem Reference.map_name_mentioned : (reference : Reference) →
    reference.mentioned.map Mention.name = reference.mentions
  | .named _ => by rw [Reference.mentioned, Reference.mentions]; rfl
  | .inline steps => by
    rw [Reference.mentioned, Reference.mentions, Pipeline.map_name_mentioned steps]

theorem Reference.map_name_mentionedOf : (references : List Reference) →
    (Reference.mentionedOf references).map Mention.name = Reference.mentionsOf references
  | [] => by rw [Reference.mentionedOf, Reference.mentionsOf]; rfl
  | first :: rest => by
    rw [Reference.mentionedOf, Reference.mentionsOf, List.map_append,
      Reference.map_name_mentioned first, Reference.map_name_mentionedOf rest]

end

theorem Pipeline.mentioned_append (first second : Pipeline) :
    mentioned (first ++ second) = mentioned first ++ mentioned second := by
  induction first with
  | nil => simp [mentioned]
  | cons step rest inductionHypothesis => simp [mentioned, inductionHypothesis]

theorem Pipeline.mentions_append (first second : Pipeline) :
    mentions (first ++ second) = mentions first ++ mentions second := by
  rw [← map_name_mentioned, mentioned_append, List.map_append, map_name_mentioned,
    map_name_mentioned]

/-- Names of domain steps only, none of them known. -/
def Mention.AllUnknown (scope : Scope) (mentions : List Mention) : Prop :=
  ∀ mention ∈ mentions, ∃ name, mention = .domain name ∧ Fields.get? scope name = none

namespace Unfolds

variable {scope : Scope} {pipeline unfolded : Pipeline}

/-- An unfolding refers to nothing by name, and the names of its domain steps stand for no
pipeline. -/
theorem allUnknown (unfolds : Unfolds scope pipeline unfolded) :
    Mention.AllUnknown scope (Pipeline.mentioned unfolded) := by
  induction unfolds with
  | nil => simp [Mention.AllUnknown, Pipeline.mentioned]
  | splice _ _ _ targetHypothesis restHypothesis =>
    rw [Pipeline.mentioned_append]
    intro mention mentioned
    rcases List.mem_append.mp mentioned with spliced | later
    · exact targetHypothesis mention spliced
    · exact restHypothesis mention later
  | @collection name rest others unknown _ restHypothesis =>
    simp only [Pipeline.mentioned, Step.mentioned, List.singleton_append]
    intro mention mentioned
    rcases List.mem_cons.mp mentioned with rfl | later
    · exact ⟨name, rfl, unknown⟩
    · exact restHypothesis mention later
  | appendAbsent _ restHypothesis | appendNil _ restHypothesis =>
    simpa [Pipeline.mentioned, Step.mentioned, Reference.mentionedOf] using restHypothesis
  | appendCons _ _ sourceHypothesis restHypothesis =>
    simp only [Pipeline.mentioned, Step.mentioned, Reference.mentionedOf, Reference.mentioned,
      List.append_assoc] at restHypothesis ⊢
    intro mention mentioned
    rcases List.mem_append.mp mentioned with inSource | later
    · exact sourceHypothesis mention inSource
    · exact restHypothesis mention later
  | join _ _ rightHypothesis restHypothesis =>
    simp only [Pipeline.mentioned, Step.mentioned, Reference.mentioned]
    intro mention mentioned
    rcases List.mem_append.mp mentioned with inRight | later
    · exact rightHypothesis mention inRight
    · exact restHypothesis mention later
  | transform _ restHypothesis =>
    simpa [Pipeline.mentioned, Step.mentioned] using restHypothesis

theorem get?_eq_none (unfolds : Unfolds scope pipeline unfolded) :
    ∀ name ∈ Pipeline.mentions unfolded, Fields.get? scope name = none := by
  intro name mentioned
  rw [← Pipeline.map_name_mentioned] at mentioned
  obtain ⟨mention, stands, rfl⟩ := List.mem_map.mp mentioned
  obtain ⟨name, rfl, unknown⟩ := unfolds.allUnknown mention stands
  exact unknown

/-- An unfolding is its own unfolding wherever its names are unknown: its lists are present and its
references are written in place, so nothing is left to change. -/
theorem self {other : Scope} (unfolds : Unfolds scope pipeline unfolded)
    (unknown : ∀ name ∈ Pipeline.mentions unfolded, Fields.get? other name = none) :
    Unfolds other unfolded unfolded := by
  induction unfolds with
  | nil => exact .nil
  | splice _ _ _ targetHypothesis restHypothesis =>
    rw [Pipeline.mentions_append] at unknown
    obtain ⟨inTarget, later⟩ := List.forall_mem_append.mp unknown
    exact (targetHypothesis inTarget).append (restHypothesis later)
  | collection _ _ restHypothesis =>
    obtain ⟨first, later⟩ := List.forall_mem_cons.mp unknown
    exact .collection first (restHypothesis later)
  | appendAbsent _ restHypothesis | appendNil _ restHypothesis =>
    exact .appendNil (restHypothesis unknown)
  | appendCons _ _ sourceHypothesis restHypothesis =>
    simp only [Pipeline.mentions, Step.mentions, Reference.mentionsOf, Reference.mentions,
      List.append_assoc] at unknown restHypothesis
    obtain ⟨inSource, later⟩ := List.forall_mem_append.mp unknown
    exact .appendCons (sourceHypothesis inSource) (restHypothesis later)
  | join _ _ rightHypothesis restHypothesis =>
    obtain ⟨inRight, later⟩ := List.forall_mem_append.mp unknown
    exact .join (rightHypothesis inRight) (restHypothesis later)
  | transform _ restHypothesis => exact .transform (restHypothesis unknown)

end Unfolds

namespace Pipeline

/-- Without a known name there is nothing to look up, so resolving cannot fail. -/
theorem resolve_of_unknown {scope : Scope} {pipeline : Pipeline}
    (unknown : ∀ name ∈ mentions pipeline, Fields.get? scope name = none) :
    ∃ resolved, pipeline.resolve scope = .ok resolved := by
  have looks : ∀ name ∈ mentions pipeline,
      Resolving.Looks scope (Resolving.find scope (scope.length + 1) root) (fun _ => True)
        (fun _ => False) name := by
    intro name mentioned
    rw [Resolving.Looks, Resolving.find, unknown name mentioned]
    exact Resolving.ensures_pure fun progress _ => ⟨trivial, unknown name mentioned⟩
  have ensured := Resolving.ensures_steps (fun _ _ _ => False.elim) 0 pipeline looks ⟨[], []⟩ trivial
  rw [← resolveAll_eq] at ensured
  cases outcome : pipeline.resolveAll scope with
  | error failure =>
    rw [outcome] at ensured
    exact False.elim ensured
  | ok found => exact ⟨found.1, resolve_eq_ok_iff.mpr ⟨found.2, outcome⟩⟩

/-- What resolving leaves is closed: it has no reference by name at any depth, no domain step of it
names a pipeline of the scope, and resolving it again changes nothing, neither in the scope nor in any
other that knows none of its domains. -/
theorem resolve_resolved {pipeline resolved : Pipeline} {scope : Scope}
    (returned : pipeline.resolve scope = .ok resolved) :
    (∀ name, .reference name ∉ mentioned resolved) ∧
      (∀ name, .domain name ∈ mentioned resolved → name ∉ Fields.names scope) ∧
      resolved.resolve scope = .ok resolved ∧
      ∀ other : Scope, (∀ name, .domain name ∈ mentioned resolved → name ∉ Fields.names other) →
        resolved.resolve other = .ok resolved := by
  have unfolds := unfolds_of_resolve returned
  have closed := unfolds.allUnknown
  have unreferred : ∀ name, .reference name ∉ mentioned resolved := by
    intro name referred
    obtain ⟨_, same, _⟩ := closed _ referred
    cases same
  have unknown : ∀ name, .domain name ∈ mentioned resolved → name ∉ Fields.names scope := by
    intro name stands
    obtain ⟨_, ⟨⟩, absent⟩ := closed _ stands
    exact Fields.get?_eq_none_iff.mp absent
  have fixed : ∀ other : Scope,
      (∀ name, .domain name ∈ mentioned resolved → name ∉ Fields.names other) →
        resolved.resolve other = .ok resolved := by
    intro other apart
    have absent : ∀ name ∈ mentions resolved, Fields.get? other name = none := by
      intro name named
      rw [← map_name_mentioned] at named
      obtain ⟨mention, stands, rfl⟩ := List.mem_map.mp named
      obtain ⟨name, rfl, -⟩ := closed mention stands
      exact Fields.get?_eq_none_iff.mpr (apart name stands)
    obtain ⟨again, returnedAgain⟩ := resolve_of_unknown absent
    have same : again = resolved := (unfolds_of_resolve returnedAgain).unique (unfolds.self absent)
    exact same ▸ returnedAgain
  exact ⟨unreferred, unknown, fixed scope unknown, fixed⟩

/-- What the names of a diamond come to, also where one of its names has another meaning and another
leads back to itself. -/
theorem resolve_resolved_diamond :
    let base : Pipeline := [.domain "raw", .transform (.lowercase "city")]
    let resolved : Pipeline := base ++
      [.join (.inline (base ++ [.append (some [.inline base, .inline base])])) "inner" none,
        .append (some [.inline [.domain "extra"], .inline base]), .append (some [])]
    Pipeline.resolve [.domain "left", .join (.named "right") "inner" none,
        .append (some [.named "extra", .inline [.domain "base"]]), .append none] diamond =
          .ok resolved ∧
      resolved.resolve diamond = .ok resolved ∧
      resolved.resolve [("base", [.domain "other"]), ("left", [.domain "left"])] = .ok resolved := by
  intro base resolved
  have returned : Pipeline.resolve [.domain "left", .join (.named "right") "inner" none,
      .append (some [.named "extra", .inline [.domain "base"]]), .append none] diamond =
        .ok resolved := by cbv
  obtain ⟨-, -, again, elsewhere⟩ := resolve_resolved returned
  have domains : mentioned resolved = [.domain "raw", .domain "raw", .domain "raw", .domain "raw",
      .domain "extra", .domain "raw"] := by cbv
  refine ⟨returned, again, elsewhere _ ?_⟩
  intro name stands known
  simp only [domains, List.mem_cons, Mention.domain.injEq, List.not_mem_nil, or_false] at stands
  simp only [Fields.names, List.map_cons, List.map_nil, List.mem_cons, List.not_mem_nil,
    or_false] at known
  rcases known with rfl | rfl <;> simp at stands

end Pipeline

end StepQuery
