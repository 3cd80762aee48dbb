import StepQuery.Proofs.Attempt
import StepQuery.Proofs.Reference.Cycle

/-!
Which references resolving records.  Resolving a pipeline looks up the names it mentions one after the
other and touches its record in no other way.  References of a name are recorded only when the name is
resolved for the first time, and those of a pipeline written in place belong to the name around it;
still, once a pipeline has been resolved, the record is complete.  It has every reference of every
name that the pipeline reaches, and no other.
-/

namespace StepQuery

namespace Resolving

variable {α β : Type} {start reached : Progress}

theorem bind_eq_ok {action : Resolving α} {next : α → Resolving β} {result : β × Progress} :
    (action >>= next) start = .ok result ↔
      ∃ found middle, action start = .ok (found, middle) ∧ next found middle = .ok result := by
  change (action start >>= fun outcome => next outcome.1 outcome.2) = .ok result ↔ _
  rw [Attempt.bind_eq_ok]
  constructor
  · rintro ⟨⟨found, middle⟩, acted, returned⟩
    exact ⟨found, middle, acted, returned⟩
  · rintro ⟨found, middle, acted, returned⟩
    exact ⟨(found, middle), acted, returned⟩

theorem pure_eq_ok {value result : α} :
    (pure value : Resolving α) start = .ok (result, reached) ↔ value = result ∧ start = reached := by
  change Except.ok (value, start) = Except.ok (result, reached) ↔ _
  rw [Except.ok.injEq, Prod.mk.injEq]

theorem inside_eq_ok {place : Place} {action : Resolving α} {result : α × Progress} :
    inside place action start = .ok result ↔ action start = .ok result :=
  Attempt.inside_eq_ok

/-- The names are looked up one after the other, which leads from the first progress to the second. -/
inductive Visits (find : String → Resolving (Option Pipeline)) :
    List String → Progress → Progress → Prop where
  | nil {progress : Progress} : Visits find [] progress progress
  | cons {name : String} {names : List String} {found : Option Pipeline}
      {start middle reached : Progress} : find name start = .ok (found, middle) →
      Visits find names middle reached → Visits find (name :: names) start reached

section Walk

variable {find : String → Resolving (Option Pipeline)}

theorem Visits.append {names later : List String} {middle : Progress}
    (first : Visits find names start middle) (second : Visits find later middle reached) :
    Visits find (names ++ later) start reached := by
  induction first with
  | nil => exact second
  | cons looked _ inductionHypothesis => exact .cons looked (inductionHypothesis second)

theorem Visits.single {name : String} {found : Option Pipeline}
    (looked : find name start = .ok (found, reached)) : Visits find [name] start reached :=
  .cons looked .nil

mutual

/-- Resolving a pipeline visits the names it mentions, in the order in which they stand. -/
theorem visits_of_steps : (index : Nat) → (pipeline : List Step) → (found : List Step) →
    (start reached : Progress) → steps find index pipeline start = .ok (found, reached) →
    Visits find (Pipeline.mentions pipeline) start reached
  | _, [], _, _, _, returned => by
    rw [steps, pure_eq_ok] at returned
    rw [Pipeline.mentions, returned.2]
    exact .nil
  | index, first :: rest, _, start, reached, returned => by
    rw [steps] at returned
    obtain ⟨found, middle, stepped, returned⟩ := bind_eq_ok.mp returned
    obtain ⟨others, ending, walked, returned⟩ := bind_eq_ok.mp returned
    obtain ⟨-, rfl⟩ := pure_eq_ok.mp returned
    rw [Pipeline.mentions]
    exact (visits_of_step index first found start middle stepped).append
      (visits_of_steps (index + 1) rest others middle ending walked)
termination_by structural _ pipeline => pipeline

theorem visits_of_step : (index : Nat) → (step : Step) → (found : List Step) →
    (start reached : Progress) → Resolving.step find index step start = .ok (found, reached) →
    Visits find step.mentions start reached
  | index, .domain name, _, start, reached, returned => by
    rw [step] at returned
    obtain ⟨found, middle, looked, returned⟩ := bind_eq_ok.mp returned
    have same : middle = reached := by
      cases found <;> exact (pure_eq_ok.mp returned).2
    rw [Step.mentions]
    exact .single (same ▸ looked)
  | _, .append none, _, _, _, returned => by
    rw [step, pure_eq_ok] at returned
    rw [Step.mentions, returned.2]
    exact .nil
  | index, .append (some sources), _, start, reached, returned => by
    rw [step] at returned
    obtain ⟨found, middle, walked, returned⟩ := bind_eq_ok.mp returned
    obtain ⟨-, rfl⟩ := pure_eq_ok.mp returned
    rw [Step.mentions]
    exact visits_of_references index 0 sources found start middle walked
  | index, .join right type on, _, start, reached, returned => by
    rw [step] at returned
    obtain ⟨found, middle, walked, returned⟩ := bind_eq_ok.mp returned
    obtain ⟨-, rfl⟩ := pure_eq_ok.mp returned
    rw [Step.mentions]
    exact visits_of_reference right found start middle (inside_eq_ok.mp walked)
  | _, .transform operation, _, _, _, returned => by
    rw [step, pure_eq_ok] at returned
    rw [Step.mentions, returned.2]
    exact .nil
termination_by structural _ step => step

theorem visits_of_references (index : Nat) : (source : Nat) → (sources : List Reference) →
    (found : List Reference) → (start reached : Progress) →
    references find index source sources start = .ok (found, reached) →
    Visits find (Reference.mentionsOf sources) start reached
  | _, [], _, _, _, returned => by
    rw [references, pure_eq_ok] at returned
    rw [Reference.mentionsOf, returned.2]
    exact .nil
  | source, first :: rest, _, start, reached, returned => by
    rw [references] at returned
    obtain ⟨found, middle, walked, returned⟩ := bind_eq_ok.mp returned
    obtain ⟨others, ending, later, returned⟩ := bind_eq_ok.mp returned
    obtain ⟨-, rfl⟩ := pure_eq_ok.mp returned
    rw [Reference.mentionsOf]
    exact (visits_of_reference first found start middle (inside_eq_ok.mp walked)).append
      (visits_of_references index (source + 1) rest others middle ending later)
termination_by structural _ sources => sources

theorem visits_of_reference : (written : Reference) → (found : Reference) →
    (start reached : Progress) → reference find written start = .ok (found, reached) →
    Visits find written.mentions start reached
  | .named name, _, start, reached, returned => by
    rw [reference] at returned
    obtain ⟨found, middle, looked, returned⟩ := bind_eq_ok.mp returned
    have same : middle = reached := by
      cases found <;> exact (pure_eq_ok.mp returned).2
    rw [Reference.mentions]
    exact .single (same ▸ looked)
  | .inline pipeline, _, start, reached, returned => by
    rw [reference] at returned
    obtain ⟨found, middle, walked, returned⟩ := bind_eq_ok.mp returned
    obtain ⟨-, rfl⟩ := pure_eq_ok.mp returned
    rw [Reference.mentions]
    exact visits_of_steps 0 pipeline found start middle walked
termination_by structural written => written

end

end Walk

/-- A reference that is let pass does not close a cycle, and is on record afterwards. -/
theorem link_eq_ok {owner name : String} {result : Unit}
    (linked : link owner name start = .ok (result, reached)) :
    (owner, name) ∈ start.links ∧ reached = start ∨
      Links.path? start.links name owner = none ∧ owner ≠ name ∧
        reached = { start with links := start.links ++ [(owner, name)] } := by
  rw [link_apply] at linked
  split_ifs at linked with same recorded
  · cases linked
    exact .inl ⟨recorded, rfl⟩
  · cases search : Links.path? start.links name owner with
    | some path =>
      rw [search] at linked
      cases linked
    | none =>
      rw [search] at linked
      cases linked
      exact .inr ⟨rfl, same, rfl⟩

/-- What looking a name up does: nothing for an unknown name; otherwise the reference is recorded, and
the pipeline is resolved if it has not been before. -/
theorem find_eq_ok {scope : Scope} {depth : Nat} {owner name : String} {found : Option Pipeline}
    (looked : find scope (depth + 1) owner name start = .ok (found, reached)) :
    Fields.get? scope name = none ∧ reached = start ∨
      ∃ target linked, Fields.get? scope name = some target ∧
        link owner name start = .ok ((), linked) ∧
        ((Fields.get? linked.resolved name).isSome ∧ reached = linked ∨
          Fields.get? linked.resolved name = none ∧ ∃ resolved walked,
            steps (find scope depth name) 0 target linked = .ok (resolved, walked) ∧
            reached = { walked with resolved := Fields.set name resolved walked.resolved }) := by
  rw [find] at looked
  cases known : Fields.get? scope name with
  | none =>
    rw [known] at looked
    exact .inl ⟨rfl, (pure_eq_ok.mp looked).2.symm⟩
  | some target =>
    rw [known] at looked
    obtain ⟨_, linked, recorded, looked⟩ := bind_eq_ok.mp looked
    refine .inr ⟨target, linked, rfl, recorded, ?_⟩
    -- Reading the progress changes nothing.
    obtain ⟨_, _, read, looked⟩ := bind_eq_ok.mp looked
    cases read
    cases held : Fields.get? linked.resolved name with
    | some pipeline =>
      rw [held] at looked
      exact .inl ⟨rfl, (pure_eq_ok.mp looked).2.symm⟩
    | none =>
      rw [held] at looked
      obtain ⟨resolved, walked, ran, looked⟩ := bind_eq_ok.mp looked
      cases looked
      exact .inr ⟨rfl, resolved, walked, ran, rfl⟩

/-- A record to which every reference of the resolved names has been added.  The pipeline itself is
the outermost owner, under a name that nothing refers to. -/
structure Complete (scope : Scope) (pipeline : Pipeline) (chain : List String)
    (progress : Progress) : Prop extends Consistent scope pipeline chain progress where
  rooted : Pipeline.root ∈ chain
  apart : ∀ link ∈ progress.links, link.2 ≠ Pipeline.root
  /-- The pipeline owns what it mentions, and a name that it reaches owns what it refers to. -/
  owned : ∀ link ∈ progress.links, link.1 = Pipeline.root ∧ link.2 ∈ Pipeline.mentions pipeline ∨
    scope.Reached pipeline link.1 ∧ scope.Refers link.1 link.2
  complete : ∀ name, (Fields.get? progress.resolved name).isSome →
    ∀ next, scope.Refers name next → (name, next) ∈ progress.links

/-- The owner is the pipeline itself, or a name that stands for what it owns. -/
def OwnsApart (scope : Scope) (pipeline : Pipeline) (owner : String) (owned : Pipeline) : Prop :=
  owner = Pipeline.root ∧ owned = pipeline ∨
    owner ≠ Pipeline.root ∧ Fields.get? scope owner = some owned

namespace Complete

variable {scope : Scope} {pipeline owned : Pipeline} {owner name : String} {outer : List String}
  {progress : Progress}

theorem beginning : Complete scope pipeline [Pipeline.root] ⟨[], []⟩ where
  toConsistent := consistent_start
  rooted := List.mem_singleton_self _
  apart := by simp
  owned := by simp
  complete := by simp

/-- What an owner mentions and the scope knows is owned as it should be. -/
theorem owned_of_mentioned (complete : Complete scope pipeline (owner :: outer) progress)
    (owns : OwnsApart scope pipeline owner owned) (mentioned : name ∈ Pipeline.mentions owned)
    (known : (Fields.get? scope name).isSome) :
    owner = Pipeline.root ∧ name ∈ Pipeline.mentions pipeline ∨
      scope.Reached pipeline owner ∧ scope.Refers owner name := by
  rcases owns with ⟨isRoot, rfl⟩ | ⟨notRoot, held⟩
  · exact .inl ⟨isRoot, mentioned⟩
  · have reached := (complete.reached owner List.mem_cons_self).resolve_left notRoot
    exact .inr ⟨reached, owned, held, mentioned, known⟩

theorem reached_of_owned
    (owns : owner = Pipeline.root ∧ name ∈ Pipeline.mentions pipeline ∨
      scope.Reached pipeline owner ∧ scope.Refers owner name)
    (known : (Fields.get? scope name).isSome) : scope.Reached pipeline name := by
  rcases owns with ⟨-, mentioned⟩ | ⟨reached, refers⟩
  · exact ⟨name, mentioned, known, .refl⟩
  · exact reached.refers refers

/-- Adding a reference to the record keeps what the record says, on whatever chain that leaves. -/
theorem add {chain : List String} (complete : Complete scope pipeline (owner :: outer) progress)
    (fresh : name ∉ owner :: outer)
    (owns : owner = Pipeline.root ∧ name ∈ Pipeline.mentions pipeline ∨
      scope.Reached pipeline owner ∧ scope.Refers owner name)
    (rooted : Pipeline.root ∈ chain)
    (consistent : Consistent scope pipeline chain
      { progress with links := progress.links ++ [(owner, name)] }) :
    Complete scope pipeline chain
      { progress with links := progress.links ++ [(owner, name)] } where
  toConsistent := consistent
  rooted := rooted
  apart := by
    intro link membership
    rcases List.mem_append.mp membership with old | new
    · exact complete.apart link old
    · rw [List.mem_singleton] at new
      subst new
      exact fun isRoot : name = Pipeline.root => fresh (isRoot ▸ complete.rooted)
  owned := by
    intro link membership
    rcases List.mem_append.mp membership with old | new
    · exact complete.owned link old
    · rw [List.mem_singleton] at new
      exact new ▸ owns
  complete := fun other resolved next refers =>
    List.mem_append_left _ (complete.complete other resolved next refers)

/-- A name all of whose references have been recorded can be taken off the chain. -/
theorem finish (complete : Complete scope pipeline (name :: owner :: outer) progress)
    (rooted : Pipeline.root ∈ owner :: outer)
    (recorded : ∀ next, scope.Refers name next → (name, next) ∈ progress.links)
    (found : Pipeline) :
    Complete scope pipeline (owner :: outer)
      { progress with resolved := Fields.set name found progress.resolved } where
  toConsistent := complete.toConsistent.leave found
  rooted := rooted
  apart := complete.apart
  owned := complete.owned
  complete := by
    intro other resolved
    by_cases same : name = other
    · exact same ▸ recorded
    · rw [Fields.get?_set_of_ne same] at resolved
      exact complete.complete other resolved

/-- Once nothing is left on the chain but the pipeline itself, every name referred to has been
resolved. -/
theorem resolved_of_ended {other : String} (complete : Complete scope pipeline [owner] progress)
    (leads : Links.Leads progress.links other name) :
    (Fields.get? progress.resolved name).isSome := by
  refine (complete.targets _ leads).resolve_right fun inner => ?_
  have bounded := inner.length_le
  simp at bounded

end Complete

/-- What a look-up on behalf of an owner has to do to the record: it stays complete, loses nothing and
has the reference afterwards. -/
def Records (scope : Scope) (pipeline : Pipeline) (chain : List String) (owner : String)
    (names : List String) (start reached : Progress) : Prop :=
  Complete scope pipeline chain reached ∧ start.links ⊆ reached.links ∧
    ∀ name ∈ names, (Fields.get? scope name).isSome → (owner, name) ∈ reached.links

theorem records_of_visits {scope : Scope} {pipeline : Pipeline} {chain : List String} {owner : String}
    {names : List String} {find : String → Resolving (Option Pipeline)}
    (looks : ∀ name ∈ names, ∀ found start reached, Complete scope pipeline chain start →
      find name start = .ok (found, reached) →
      Records scope pipeline chain owner [name] start reached)
    (complete : Complete scope pipeline chain start) (visits : Visits find names start reached) :
    Records scope pipeline chain owner names start reached := by
  induction visits with
  | nil => exact ⟨complete, List.Subset.refl _, by simp⟩
  | @cons name names found start middle reached looked _ inductionHypothesis =>
    obtain ⟨first, later⟩ := List.forall_mem_cons.mp looks
    obtain ⟨between, grown, recorded⟩ := first found start middle complete looked
    obtain ⟨ending, grownAgain, others⟩ := inductionHypothesis later between
    refine ⟨ending, List.Subset.trans grown grownAgain, ?_⟩
    intro other membership known
    rcases List.mem_cons.mp membership with rfl | membership
    · exact grownAgain (recorded other (List.mem_singleton_self _) known)
    · exact others other membership known

/-- Looking a name up keeps the record complete.  The induction is on the depth: the names mentioned
by a pipeline that is resolved for the first time are looked up one level further down. -/
theorem records_of_find {scope : Scope} {pipeline : Pipeline} (depth : Nat) {owner name : String}
    {outer : List String} {owned : Pipeline} {found : Option Pipeline}
    (owns : OwnsApart scope pipeline owner owned) (mentioned : name ∈ Pipeline.mentions owned)
    (complete : Complete scope pipeline (owner :: outer) start)
    (looked : find scope depth owner name start = .ok (found, reached)) :
    Records scope pipeline (owner :: outer) owner [name] start reached := by
  induction depth generalizing owner name outer owned found start reached with
  | zero => cases looked
  | succ depth inductionHypothesis =>
    have answers : ∀ {links : List (String × String)}, (owner, name) ∈ links →
        ∀ other ∈ [name], (Fields.get? scope other).isSome → (owner, other) ∈ links := by
      intro links recorded other membership _
      exact List.mem_singleton.mp membership ▸ recorded
    rcases find_eq_ok looked with ⟨unknown, rfl⟩ | ⟨target, linked, known, recorded, outcome⟩
    · refine ⟨complete, List.Subset.refl _, ?_⟩
      intro other membership isKnown
      rw [List.mem_singleton.mp membership, unknown] at isKnown
      cases isKnown
    · have isKnown : (Fields.get? scope name).isSome := known ▸ rfl
      have owns' := complete.owned_of_mentioned owns mentioned isKnown
      rcases link_eq_ok recorded with ⟨old, rfl⟩ | ⟨noPath, _, rfl⟩
      · -- A reference on record leads from the innermost owner to a name that has been resolved.
        have resolved := complete.resolved_of_leads old
        rcases outcome with ⟨_, rfl⟩ | ⟨unresolved, _⟩
        · exact ⟨complete, List.Subset.refl _, answers old⟩
        · rw [unresolved] at resolved
          cases resolved
      · have fresh : name ∉ owner :: outer := fun onChain =>
          Links.not_reaches_of_path?_eq_none noPath (complete.reaches_head onChain)
        have genuine : (owner = Pipeline.root ∨ scope.Refers owner name) ∧
            (Fields.get? scope name).isSome := ⟨owns'.imp And.left And.right, isKnown⟩
        have added : (owner, name) ∈ start.links ++ [(owner, name)] :=
          List.mem_append_right _ (List.mem_singleton_self _)
        have grown : start.links ⊆ start.links ++ [(owner, name)] :=
          List.subset_append_left _ _
        rcases outcome with ⟨resolved, rfl⟩ | ⟨_, steps, walked, ran, rfl⟩
        · have kept := complete.add fresh owns' complete.rooted
            (complete.toConsistent.record genuine resolved)
          exact ⟨kept, grown, answers added⟩
        · have entered := complete.add fresh owns' (List.mem_cons_of_mem name complete.rooted)
            (complete.toConsistent.enter genuine (Complete.reached_of_owned owns' isKnown) fresh)
          have notRoot : name ≠ Pipeline.root := fun isRoot => fresh (isRoot ▸ complete.rooted)
          obtain ⟨left, grownAgain, inner⟩ := records_of_visits
            (fun inner isInner _ _ _ starts =>
              inductionHypothesis (.inr ⟨notRoot, known⟩) isInner starts)
            entered (visits_of_steps 0 target steps _ walked ran)
          refine ⟨left.finish complete.rooted ?_ steps, List.Subset.trans grown grownAgain,
            answers (grownAgain added)⟩
          rintro next ⟨held, known', isMentioned, nextKnown⟩
          rw [known, Option.some.injEq] at known'
          exact inner next (known' ▸ isMentioned) nextKnown

end Resolving

namespace Pipeline

open Resolving (Complete Records)

variable {pipeline resolved : Pipeline} {scope : Scope} {progress : Progress}

/-- Resolving a pipeline to its end leaves a complete record, which has what the pipeline itself
refers to. -/
theorem records_of_resolveAll (returned : pipeline.resolveAll scope = .ok (resolved, progress)) :
    Records scope pipeline [root] root (mentions pipeline) ⟨[], []⟩ progress := by
  refine Resolving.records_of_visits ?_ Complete.beginning
    (Resolving.visits_of_steps 0 pipeline resolved _ progress returned)
  intro name mentioned found start reached complete looked
  exact Resolving.records_of_find (scope.length + 1) (.inl ⟨rfl, rfl⟩) mentioned complete looked

/-- The names that the record leads to are the ones that the pipeline reaches. -/
theorem exists_leads_iff_reached (returned : pipeline.resolveAll scope = .ok (resolved, progress))
    {name : String} :
    (∃ owner, Links.Leads progress.links owner name) ↔ scope.Reached pipeline name := by
  obtain ⟨complete, -, mentioned⟩ := records_of_resolveAll returned
  constructor
  · rintro ⟨owner, leads⟩
    exact Complete.reached_of_owned (complete.owned _ leads) (complete.genuine _ leads).2
  · rintro ⟨start, isMentioned, known, reaches⟩
    induction reaches with
    | refl => exact ⟨root, mentioned start isMentioned known⟩
    | @tail name next _ refers inductionHypothesis =>
      obtain ⟨owner, leads⟩ := inductionHypothesis
      exact ⟨name, complete.complete name (complete.resolved_of_ended leads) next refers⟩

/-- The record has every reference of a name that the pipeline reaches. -/
theorem leads_of_refers (returned : pipeline.resolveAll scope = .ok (resolved, progress))
    {name next : String} (reached : scope.Reached pipeline name) (refers : scope.Refers name next) :
    Links.Leads progress.links name next := by
  obtain ⟨complete, -, -⟩ := records_of_resolveAll returned
  obtain ⟨owner, leads⟩ := (exists_leads_iff_reached returned).mpr reached
  exact complete.complete name (complete.resolved_of_ended leads) next refers

/-- The record leads around no cycle: nothing refers to the pipeline itself, and the names that it
reaches have an unfolding. -/
theorem not_transGen_leads (returned : pipeline.resolveAll scope = .ok (resolved, progress))
    (name : String) : ¬ Relation.TransGen (Links.Leads progress.links) name name := by
  obtain ⟨complete, -, -⟩ := records_of_resolveAll returned
  have lifts : ∀ {first last : String}, first ≠ root →
      Relation.TransGen (Links.Leads progress.links) first last →
      Relation.TransGen scope.Refers first last ∧ last ≠ root := by
    intro first last notRoot path
    have refers : ∀ {owner next : String}, owner ≠ root → Links.Leads progress.links owner next →
        scope.Refers owner next := by
      intro owner next notRoot leads
      exact (complete.genuine _ leads).1.resolve_left notRoot
    induction path with
    | single leads => exact ⟨.single (refers notRoot leads), complete.apart _ leads⟩
    | tail _ leads inductionHypothesis =>
      exact ⟨inductionHypothesis.1.tail (refers inductionHypothesis.2 leads), complete.apart _ leads⟩
  intro cycle
  obtain ⟨owner, -, leads⟩ := Relation.TransGen.tail'_iff.mp cycle
  have reached := (exists_leads_iff_reached returned).mp ⟨owner, leads⟩
  have unfolds := unfolds_of_resolve (resolve_eq_ok_iff.mpr ⟨progress, returned⟩)
  exact unfolds.not_reachesCycle ⟨name, reached, (lifts (complete.apart _ leads) cycle).1⟩

end Pipeline

end StepQuery
