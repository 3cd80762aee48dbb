import StepQuery.Proofs.Attempt
import StepQuery.Proofs.Reference.Path
import StepQuery.Proofs.Reference.Unfolding

/-!
When resolving fails.  The names of a scope form a graph, one name leading to another when its
pipeline mentions it.  Resolving fails exactly when a cycle of that graph is reached from the names of
the pipeline, and its failure shows such a cycle.

The links on record at any moment stand in a fixed relation to the owners being resolved, innermost
first, and to the table of resolved pipelines: `Consistent` says which, and that a name on the chain
of owners is exactly what the search for a path finds.
-/

namespace StepQuery

namespace Scope

/-- The pipeline of a name mentions another name of the scope. -/
def Refers (scope : Scope) (name next : String) : Prop :=
  ∃ target, Fields.get? scope name = some target ∧ next ∈ Pipeline.mentions target ∧
    (Fields.get? scope next).isSome

/-- References lead from a pipeline to a name of the scope. -/
def Reached (scope : Scope) (pipeline : Pipeline) (name : String) : Prop :=
  ∃ start ∈ Pipeline.mentions pipeline, (Fields.get? scope start).isSome ∧
    Relation.ReflTransGen scope.Refers start name

/-- References lead from a pipeline to a name that leads back to itself. -/
def ReachesCycle (scope : Scope) (pipeline : Pipeline) : Prop :=
  ∃ name, scope.Reached pipeline name ∧ Relation.TransGen scope.Refers name name

/-- A list of names each of which refers to the next, and which ends where it starts. -/
structure ClosedWalk (scope : Scope) (path : List String) : Prop where
  length : 2 ≤ path.length
  closed : path.head? = path.getLast?
  refers : path.IsChain scope.Refers

variable {scope : Scope} {pipeline : Pipeline}

theorem Reached.known {name : String} (reached : scope.Reached pipeline name) :
    (Fields.get? scope name).isSome := by
  obtain ⟨start, -, known, reaches⟩ := reached
  cases reaches with
  | refl => exact known
  | tail _ refers =>
    obtain ⟨_, _, _, known⟩ := refers
    exact known

theorem Reached.refers {name next : String} (reached : scope.Reached pipeline name)
    (refers : scope.Refers name next) : scope.Reached pipeline next := by
  obtain ⟨start, mentioned, known, reaches⟩ := reached
  exact ⟨start, mentioned, known, reaches.tail refers⟩

theorem transGen_of_isChain {name last : String} {rest : List String}
    (chain : (name :: rest).IsChain scope.Refers) (ends : rest.getLast? = some last) :
    Relation.TransGen scope.Refers name last := by
  induction rest generalizing name with
  | nil => simp at ends
  | cons next rest inductionHypothesis =>
    obtain ⟨refers, chain⟩ := List.isChain_cons_cons.mp chain
    cases rest with
    | nil =>
      simp only [List.getLast?_singleton, Option.some.injEq] at ends
      exact ends ▸ .single refers
    | cons second rest => exact .head refers (inductionHypothesis chain (by simpa using ends))

/-- The first name of a closed walk leads back to itself. -/
theorem ClosedWalk.transGen {path : List String} {name : String} (walk : scope.ClosedWalk path)
    (first : path.head? = some name) : Relation.TransGen scope.Refers name name := by
  obtain ⟨length, closed, refers⟩ := walk
  match path, length with
  | start :: second :: rest, _ =>
    rw [List.head?_cons, Option.some.injEq] at first
    subst first
    apply transGen_of_isChain refers
    simpa using closed.symm

/-- References cannot be followed without end from this name. -/
abbrev Grounded (scope : Scope) (name : String) : Prop :=
  Acc (fun next name => scope.Refers name next) name

theorem Grounded.not_cycle {name : String} (grounded : scope.Grounded name) :
    ¬ Relation.TransGen scope.Refers name name := by
  induction grounded with
  | intro name _ inductionHypothesis =>
    intro cycle
    obtain ⟨next, refers, back⟩ := Relation.TransGen.head'_iff.mp cycle
    exact inductionHypothesis next refers (Relation.TransGen.tail' back refers)

theorem Grounded.reaches {name reached : String} (grounded : scope.Grounded name)
    (reaches : Relation.ReflTransGen scope.Refers name reached) : scope.Grounded reached := by
  induction reaches with
  | refl => exact grounded
  | tail _ refers inductionHypothesis => exact inductionHypothesis.inv refers

/-- The known names that a list mentions are all grounded. -/
def AllGrounded (scope : Scope) (names : List String) : Prop :=
  ∀ name ∈ names, (Fields.get? scope name).isSome → scope.Grounded name

theorem grounded_of_target {name : String} {target : Pipeline}
    (known : Fields.get? scope name = some target)
    (grounded : scope.AllGrounded (Pipeline.mentions target)) : scope.Grounded name := by
  constructor
  rintro next ⟨target', known', mentioned, isKnown⟩
  rw [known, Option.some.injEq] at known'
  subst known'
  exact grounded next mentioned isKnown

theorem AllGrounded.of_target {reference : Reference}
    (grounded : scope.AllGrounded (Pipeline.mentions (reference.target scope))) :
    scope.AllGrounded reference.mentions := by
  cases reference with
  | inline steps => exact grounded
  | named name =>
    intro other named isKnown
    rw [Reference.mentions, List.mem_singleton] at named
    subst named
    obtain ⟨target, known⟩ := Option.isSome_iff_exists.mp isKnown
    rw [Reference.target, known] at grounded
    exact grounded_of_target known grounded

theorem AllGrounded.append {names others : List String} (first : scope.AllGrounded names)
    (second : scope.AllGrounded others) : scope.AllGrounded (names ++ others) := by
  intro name membership isKnown
  rcases List.mem_append.mp membership with inFirst | inSecond
  · exact first name inFirst isKnown
  · exact second name inSecond isKnown

end Scope

/-- A pipeline that has an unfolding mentions grounded names only: the unfolding follows every
reference to its end. -/
theorem Unfolds.allGrounded {scope : Scope} {pipeline unfolded : Pipeline}
    (unfolds : Unfolds scope pipeline unfolded) :
    scope.AllGrounded (Pipeline.mentions pipeline) := by
  induction unfolds with
  | nil => simp [Scope.AllGrounded, Pipeline.mentions]
  | splice known _ _ targetHypothesis restHypothesis =>
    refine Scope.AllGrounded.append ?_ restHypothesis
    intro name named _
    rw [Step.mentions, List.mem_singleton] at named
    exact named ▸ Scope.grounded_of_target known targetHypothesis
  | collection unknown _ restHypothesis =>
    refine Scope.AllGrounded.append ?_ restHypothesis
    intro name named isKnown
    rw [Step.mentions, List.mem_singleton] at named
    simp [named, unknown] at isKnown
  | appendAbsent _ restHypothesis => exact restHypothesis
  | appendNil _ restHypothesis => exact restHypothesis
  | appendCons _ _ sourceHypothesis restHypothesis =>
    simp only [Pipeline.mentions, Step.mentions, Reference.mentionsOf, List.append_assoc]
      at restHypothesis ⊢
    exact (Scope.AllGrounded.of_target sourceHypothesis).append restHypothesis
  | join _ _ rightHypothesis restHypothesis =>
    exact (Scope.AllGrounded.of_target rightHypothesis).append restHypothesis
  | transform _ restHypothesis => exact restHypothesis

theorem Unfolds.not_reachesCycle {scope : Scope} {pipeline unfolded : Pipeline}
    (unfolds : Unfolds scope pipeline unfolded) : ¬ scope.ReachesCycle pipeline := by
  rintro ⟨name, ⟨start, mentioned, known, reaches⟩, cycle⟩
  have grounded := unfolds.allGrounded start mentioned known
  exact (grounded.reaches reaches).not_cycle cycle

namespace Resolving

variable {scope : Scope} {pipeline : Pipeline}

/-- How the record stands to the chain of owners being resolved, the innermost first. -/
structure Consistent (scope : Scope) (pipeline : Pipeline) (chain : List String)
    (progress : Progress) : Prop where
  nodup : chain.Nodup
  /-- Every owner is the pipeline itself or a name that it reaches. -/
  reached : ∀ name ∈ chain, name = Pipeline.root ∨ scope.Reached pipeline name
  /-- Every owner has been referred to from the one around it. -/
  linked : chain.IsChain fun inner outer => Links.Leads progress.links outer inner
  genuine : ∀ link ∈ progress.links,
    (link.1 = Pipeline.root ∨ scope.Refers link.1 link.2) ∧ (Fields.get? scope link.2).isSome
  /-- A link leads to a resolved pipeline, or from one owner to the next one inwards. -/
  targets : ∀ link ∈ progress.links,
    (Fields.get? progress.resolved link.2).isSome ∨ [link.2, link.1] <:+: chain

theorem consistent_start : Consistent scope pipeline [Pipeline.root] ⟨[], []⟩ where
  nodup := by simp
  reached := by simp
  linked := by simp
  genuine := by simp
  targets := by simp

namespace Consistent

variable {chain outer : List String} {owner name : String} {progress : Progress}

/-- There are no more owners than names, the pipeline itself apart. -/
theorem length_le (consistent : Consistent scope pipeline chain progress) :
    chain.length ≤ scope.length + 1 := by
  have included : chain ⊆ Pipeline.root :: Fields.names scope := by
    intro name membership
    rcases consistent.reached name membership with rfl | reached
    · simp
    · have known := reached.known
      simp only [Fields.get?, Option.isSome_map, List.find?_isSome, beq_iff_eq] at known
      obtain ⟨entry, inScope, rfl⟩ := known
      exact List.mem_cons_of_mem _ (List.mem_map.mpr ⟨entry, inScope, rfl⟩)
  have bounded := (List.Nodup.subperm consistent.nodup included).length_le
  simpa [Fields.names] using bounded

/-- Every owner reaches the innermost one along the links. -/
theorem reaches_head (consistent : Consistent scope pipeline (owner :: outer) progress)
    (onChain : name ∈ owner :: outer) :
    Relation.ReflTransGen (Links.Leads progress.links) name owner := by
  have linked := consistent.linked
  clear consistent
  induction outer generalizing owner with
  | nil =>
    rw [List.mem_singleton] at onChain
    exact onChain ▸ .refl
  | cons next outer inductionHypothesis =>
    obtain ⟨leads, linked⟩ := List.isChain_cons_cons.mp linked
    rcases List.mem_cons.mp onChain with rfl | onChain
    · exact .refl
    · exact (inductionHypothesis onChain linked).tail leads

/-- What the innermost owner refers to has been resolved. -/
theorem resolved_of_leads (consistent : Consistent scope pipeline (owner :: outer) progress)
    (leads : Links.Leads progress.links owner name) :
    (Fields.get? progress.resolved name).isSome := by
  rcases consistent.targets (owner, name) leads with resolved | inner
  · exact resolved
  · -- The innermost owner stands first and only once, so nothing precedes it.
    have fresh := (List.nodup_cons.mp consistent.nodup).1
    rcases List.infix_cons_iff.mp inner with first | later
    · obtain ⟨rest, split⟩ := first
      simp only [List.cons_append, List.cons.injEq] at split
      exact absurd (split.2 ▸ List.mem_cons_self) fresh
    · exact absurd (later.subset (by simp)) fresh

/-- Recording a link whose target is resolved keeps the chain. -/
theorem record (consistent : Consistent scope pipeline (owner :: outer) progress)
    (genuine : (owner = Pipeline.root ∨ scope.Refers owner name) ∧ (Fields.get? scope name).isSome)
    (resolved : (Fields.get? progress.resolved name).isSome) :
    Consistent scope pipeline (owner :: outer)
      { progress with links := progress.links ++ [(owner, name)] } where
  nodup := consistent.nodup
  reached := consistent.reached
  linked := consistent.linked.imp fun _ _ leads => List.mem_append_left _ leads
  genuine := by
    intro link membership
    rcases List.mem_append.mp membership with old | new
    · exact consistent.genuine link old
    · rw [List.mem_singleton] at new
      exact new ▸ genuine
  targets := by
    intro link membership
    rcases List.mem_append.mp membership with old | new
    · exact consistent.targets link old
    · rw [List.mem_singleton] at new
      subst new
      exact .inl resolved

/-- Recording a link to a fresh name makes that name the innermost owner. -/
theorem enter (consistent : Consistent scope pipeline (owner :: outer) progress)
    (genuine : (owner = Pipeline.root ∨ scope.Refers owner name) ∧ (Fields.get? scope name).isSome)
    (reached : scope.Reached pipeline name) (fresh : name ∉ owner :: outer) :
    Consistent scope pipeline (name :: owner :: outer)
      { progress with links := progress.links ++ [(owner, name)] } where
  nodup := List.nodup_cons.mpr ⟨fresh, consistent.nodup⟩
  reached := by
    intro other onChain
    rcases List.mem_cons.mp onChain with rfl | onChain
    · exact .inr reached
    · exact consistent.reached other onChain
  linked := List.isChain_cons_cons.mpr
    ⟨List.mem_append_right _ (by simp),
      consistent.linked.imp fun _ _ leads => List.mem_append_left _ leads⟩
  genuine := by
    intro link membership
    rcases List.mem_append.mp membership with old | new
    · exact consistent.genuine link old
    · rw [List.mem_singleton] at new
      exact new ▸ genuine
  targets := by
    intro link membership
    rcases List.mem_append.mp membership with old | new
    · exact (consistent.targets link old).imp_right fun inner => List.infix_cons inner
    · rw [List.mem_singleton] at new
      subst new
      exact .inr ⟨[], outer, rfl⟩

/-- Resolving the innermost owner to its end takes it off the chain. -/
theorem leave (consistent : Consistent scope pipeline (name :: owner :: outer) progress)
    (found : Pipeline) :
    Consistent scope pipeline (owner :: outer)
      { progress with resolved := Fields.set name found progress.resolved } where
  nodup := (List.nodup_cons.mp consistent.nodup).2
  reached := fun other onChain => consistent.reached other (List.mem_cons_of_mem _ onChain)
  linked := (List.isChain_cons_cons.mp consistent.linked).2
  genuine := consistent.genuine
  targets := by
    intro link membership
    by_cases same : name = link.2
    · left
      rw [same]
      simp
    · rw [Fields.get?_set_of_ne same]
      refine (consistent.targets link membership).imp_right fun inner => ?_
      rcases List.infix_cons_iff.mp inner with first | later
      · obtain ⟨rest, split⟩ := first
        simp only [List.cons_append, List.cons.injEq] at split
        exact absurd split.1.symm same
      · exact later

end Consistent

/-- A failure that shows a cycle which the pipeline reaches, and nothing else. -/
def ShowsCycle (scope : Scope) (pipeline : Pipeline) (failure : Failure) : Prop :=
  ∃ places path, failure = .refusal places (.cycle path) ∧
    (∀ place ∈ places, Place.kind? place = none) ∧ scope.ClosedWalk path ∧
    ∃ name, path.head? = some name ∧ scope.Reached pipeline name

theorem outward_showsCycle : Outward (ShowsCycle scope pipeline) := by
  rintro place _ kindless ⟨places, path, rfl, outside, walk⟩
  refine ⟨place :: places, path, rfl, ?_, walk⟩
  intro other membership
  rcases List.mem_cons.mp membership with rfl | membership
  · exact kindless
  · exact outside other membership

/-- The pipeline whose references a name owns. -/
def Owns (scope : Scope) (pipeline : Pipeline) (owner : String) (owned : Pipeline) : Prop :=
  owner = Pipeline.root ∧ owned = pipeline ∨ Fields.get? scope owner = some owned

/-- A path along genuine links that starts at a known name is a walk through known names. -/
theorem isChain_refers_of_leads {chain path : List String} {progress : Progress} {name : String}
    (unreserved : Fields.get? scope Pipeline.root = none)
    (consistent : Consistent scope pipeline chain progress)
    (known : (Fields.get? scope name).isSome)
    (leads : (name :: path).IsChain (Links.Leads progress.links)) :
    (name :: path).IsChain scope.Refers ∧
      ∀ other ∈ name :: path, (Fields.get? scope other).isSome := by
  induction path generalizing name with
  | nil => simpa using known
  | cons next path inductionHypothesis =>
    obtain ⟨first, leads⟩ := List.isChain_cons_cons.mp leads
    obtain ⟨genuine, isKnown⟩ := consistent.genuine (name, next) first
    have notRoot : name ≠ Pipeline.root := by
      rintro rfl
      simp [unreserved] at known
    obtain ⟨walk, allKnown⟩ := inductionHypothesis isKnown leads
    refine ⟨List.isChain_cons_cons.mpr ⟨genuine.resolve_left notRoot, walk⟩, ?_⟩
    intro other membership
    rcases List.mem_cons.mp membership with rfl | membership
    · exact known
    · exact allKnown other membership

section Link

variable {owner name : String} {outer : List String} {owned : Pipeline} {progress : Progress}

/-- A refused reference closes a cycle. -/
theorem showsCycle_of_path (unreserved : Fields.get? scope Pipeline.root = none)
    (consistent : Consistent scope pipeline (owner :: outer) progress)
    (owns : Owns scope pipeline owner owned) (mentioned : name ∈ Pipeline.mentions owned)
    (known : (Fields.get? scope name).isSome) {path : List String}
    (first : path.head? = some name) (last : path.getLast? = some owner)
    (leads : path.IsChain (Links.Leads progress.links)) :
    ShowsCycle scope pipeline (.refusal [] (.cycle (owner :: path))) := by
  obtain ⟨rest, rfl⟩ := List.head?_eq_some_iff.mp first
  obtain ⟨walk, allKnown⟩ := isChain_refers_of_leads unreserved consistent known leads
  have ownerKnown := allKnown owner (List.mem_of_getLast? last)
  have notRoot : owner ≠ Pipeline.root := by
    rintro rfl
    simp [unreserved] at ownerKnown
  have held : Fields.get? scope owner = some owned :=
    owns.resolve_left fun isRoot => notRoot isRoot.1
  have reached := (consistent.reached owner (by simp)).resolve_left notRoot
  refine ⟨[], _, rfl, by simp, ⟨by simp, ?_, ?_⟩, owner, rfl, reached⟩
  · rw [List.getLast?_cons_cons, last]
    rfl
  · exact List.isChain_cons_cons.mpr ⟨⟨owned, held, mentioned, known⟩, walk⟩

/-- What is known once a reference has been recorded: either its target was resolved before, or the
target is entered. -/
def Recorded (scope : Scope) (pipeline : Pipeline) (chain : List String) (name : String)
    (progress : Progress) : Prop :=
  match Fields.get? progress.resolved name with
  | some _ => Consistent scope pipeline chain progress
  | none => Consistent scope pipeline (name :: chain) progress

theorem ensures_link (unreserved : Fields.get? scope Pipeline.root = none)
    (owns : Owns scope pipeline owner owned) (mentioned : name ∈ Pipeline.mentions owned)
    (known : (Fields.get? scope name).isSome) :
    Ensures (Consistent scope pipeline (owner :: outer)) (link owner name)
      (fun _ => Recorded scope pipeline (owner :: outer) name) (ShowsCycle scope pipeline) := by
  intro progress consistent
  have genuine : (owner = Pipeline.root ∨ scope.Refers owner name) ∧
      (Fields.get? scope name).isSome :=
    ⟨owns.imp And.left fun held => ⟨owned, held, mentioned, known⟩, known⟩
  rw [link_apply]
  split_ifs with same recorded
  · subst same
    exact showsCycle_of_path unreserved consistent owns mentioned known rfl rfl (.singleton _)
  · obtain ⟨held, looked⟩ :=
      Option.isSome_iff_exists.mp (consistent.resolved_of_leads recorded)
    simp only [Recorded, looked]
    exact consistent
  · cases search : Links.path? progress.links name owner with
    | some path =>
      obtain ⟨first, last, leads⟩ := Links.isChain_of_path? search
      exact showsCycle_of_path unreserved consistent owns mentioned known first last leads
    | none =>
      simp only [Recorded]
      split
      · rename_i held looked
        exact consistent.record genuine (by simp [looked])
      · have fresh : name ∉ owner :: outer := fun onChain =>
          Links.not_reaches_of_path?_eq_none search (consistent.reaches_head onChain)
        refine consistent.enter genuine ?_ fresh
        rcases owns with ⟨rfl, rfl⟩ | held
        · exact ⟨name, mentioned, known, .refl⟩
        · have notRoot : owner ≠ Pipeline.root := by
            rintro rfl
            simp [unreserved] at held
          exact ((consistent.reached owner (by simp)).resolve_left notRoot).refers
            ⟨owned, held, mentioned, known⟩

end Link

/-- Looking a name up keeps the record consistent, and fails only to show a cycle: with a depth
beyond the number of names, the owners run out first. -/
theorem looks_find_consistent (unreserved : Fields.get? scope Pipeline.root = none) (depth : Nat)
    {owner name : String} {outer : List String} {owned : Pipeline}
    (owns : Owns scope pipeline owner owned) (mentioned : name ∈ Pipeline.mentions owned)
    (deep : scope.length + 2 ≤ depth + (owner :: outer).length) :
    Looks scope (find scope depth owner)
      (fun progress => TableUnfolds scope progress ∧
        Consistent scope pipeline (owner :: outer) progress)
      (ShowsCycle scope pipeline) name := by
  induction depth generalizing owner name outer owned with
  | zero =>
    rintro progress ⟨_, consistent⟩
    have bounded := consistent.length_le
    omega
  | succ depth inductionHypothesis =>
    simp only [Looks, find, Pipeline.copy_eq]
    cases known : Fields.get? scope name with
    | none => exact ensures_pure fun progress holds => ⟨holds, known⟩
    | some target =>
      refine ensures_bind (ensures_and (ensures_link_table scope owner name)
        (ensures_link unreserved owns mentioned (by simp [known]))) fun _ =>
          ensures_get fun seen holds => ?_
      obtain ⟨sound, recorded⟩ := holds
      rw [Recorded] at recorded
      cases looked : Fields.get? seen.resolved name with
      | some held =>
        rw [looked] at recorded
        refine ensures_pure ?_
        rintro _ rfl
        exact ⟨⟨sound, recorded⟩, sound name held looked⟩
      | none =>
        rw [looked] at recorded
        have deeper : scope.length + 2 ≤ depth + (name :: owner :: outer).length := by
          simp only [List.length_cons] at deep ⊢
          omega
        refine ensures_bind (ensures_mono (ensures_steps outward_showsCycle 0 target
          fun inner isInner => inductionHypothesis (.inr known) isInner deeper) ?_ fun _ _ => id)
            fun found => ?_
        · rintro _ rfl
          exact ⟨sound, recorded⟩
        · rintro progress ⟨⟨sound, consistent⟩, unfolded⟩
          have answer : Found scope name (some found) := ⟨target, known, unfolded⟩
          exact ⟨⟨sound.set answer, consistent.leave found⟩, answer⟩

end Resolving

namespace Pipeline

/-- Resolving ends with the unfolding, or shows a cycle. -/
theorem resolve_cases {scope : Scope} (pipeline : Pipeline)
    (unreserved : Fields.get? scope root = none) :
    (∃ resolved, pipeline.resolve scope = .ok resolved ∧ Unfolds scope pipeline resolved) ∨
      ∃ failure, pipeline.resolve scope = .error failure ∧
        Resolving.ShowsCycle scope pipeline failure := by
  have ensured := Resolving.ensures_steps Resolving.outward_showsCycle 0 pipeline
    (fun name mentioned => Resolving.looks_find_consistent unreserved (scope.length + 1)
      (.inl ⟨rfl, rfl⟩) mentioned (by simp)) ⟨[], []⟩
    ⟨fun name found looked => by simp at looked, Resolving.consistent_start⟩
  rw [← resolveAll_eq] at ensured
  rw [resolve]
  cases outcome : pipeline.resolveAll scope with
  | ok found =>
    rw [outcome] at ensured
    exact .inl ⟨found.1, rfl, ensured.2⟩
  | error failure =>
    rw [outcome] at ensured
    exact .inr ⟨failure, rfl, ensured⟩

theorem kinds_cycle {places : List Place}
    {path : List String} (outside : ∀ place ∈ places, Place.kind? place = none) :
    (Failure.refusal places (.cycle path)).kinds = [.cyclicReference] :=
  Failure.kinds_refusal rfl outside

/-- Unless the scope takes the name that stands for the pipeline itself, resolving always ends: with
a failure exactly when references lead to a cycle.  The failure is then of that one kind and its
message shows names that refer to each other around a cycle.  Running out of depth would be a failure
of no kind, so it does not happen. -/
theorem resolve_fails_iff_reachesCycle (pipeline : Pipeline) (scope : Scope)
    (unreserved : Fields.get? scope root = none) :
    ((∃ failure, pipeline.resolve scope = .error failure) ↔ scope.ReachesCycle pipeline) ∧
      ∀ failure, pipeline.resolve scope = .error failure →
        failure.kinds = [.cyclicReference] ∧
          ∃ (places : List Place) (path : List String), scope.ClosedWalk path ∧
            failure.message = String.intercalate ": " (places.map Place.text ++
              [Kind.cyclicReference.text, String.intercalate " -> " path]) := by
  rcases resolve_cases pipeline unreserved with ⟨resolved, returned, unfolds⟩ | ⟨shown, failed, shows⟩
  · refine ⟨⟨?_, fun cycle => absurd cycle unfolds.not_reachesCycle⟩, ?_⟩
    · rintro ⟨failure, failed⟩
      simp [returned] at failed
    · intro failure failed
      simp [returned] at failed
  · obtain ⟨places, path, rfl, outside, walk, name, first, reached⟩ := shows
    refine ⟨⟨fun _ => ⟨name, reached, walk.transGen first⟩, fun _ => ⟨_, failed⟩⟩, ?_⟩
    intro failure failedAgain
    rw [failed, Except.error.injEq] at failedAgain
    subst failedAgain
    exact ⟨kinds_cycle outside, places, path, walk, rfl⟩

/-- A pipeline that a pipeline written in place inside it leads back to. -/
theorem reachesCycle_through_inline :
    Scope.ReachesCycle
      [("a", [.domain "x", .join (.inline [.domain "c"]) "left" none]), ("c", [.domain "a"])]
      [.domain "x", .append (some [.named "a"])] :=
  (resolve_fails_iff_reachesCycle _ _ (by decide)).1.mp
    ⟨.refusal [.appendSource 1 0, .joinSource 1] (.cycle ["c", "a", "c"]), by cbv⟩

end Pipeline

end StepQuery
