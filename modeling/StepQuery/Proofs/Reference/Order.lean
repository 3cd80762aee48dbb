import StepQuery.Proofs.Reference.Recording
import StepQuery.Reference.Dependencies

/-!
The order of the dependencies.  Emptying the queue takes a name only after all names that lead to it,
and if the links lead around no cycle, no name is left waiting.  Together with the record that
resolving leaves, this makes the dependencies the names that a pipeline reaches, the needed ones
first.
-/

namespace StepQuery

namespace Dependencies

open Links (Leads)

variable {links : List (String × String)}

theorem isFree_iff {taken : List String} {name : String} :
    isFree links taken name ↔ ∀ owner, Leads links owner name → owner ∈ taken := by
  simp only [isFree, List.all_eq_true, Bool.or_eq_true, bne_iff_ne, List.contains_iff_mem, Leads]
  constructor
  · intro free owner leads
    exact (free (owner, name) leads).resolve_left fun differs => differs rfl
  · rintro free ⟨owner, target⟩ leads
    by_cases same : target = name
    · exact .inr (free owner (same ▸ leads))
    · exact .inl same

/-- Every name of a list is free once the ones before it have been taken. -/
def Ready (links : List (String × String)) : (taken names : List String) → Prop
  | _, [] => True
  | taken, name :: rest => isFree links taken name ∧ Ready links (name :: taken) rest

/-- In a list that is ready, what leads to a name has been taken before or stands in front of it. -/
theorem Ready.mem_or_sublist {taken names : List String} {owner name : String}
    (ready : Ready links taken names) (leads : Leads links owner name) (member : name ∈ names) :
    owner ∈ taken ∨ [owner, name].Sublist names := by
  induction names generalizing taken with
  | nil => cases member
  | cons first rest inductionHypothesis =>
    obtain ⟨free, later⟩ := ready
    rcases List.mem_cons.mp member with rfl | inRest
    · exact .inl (isFree_iff.mp free owner leads)
    · rcases inductionHypothesis later inRest with before | behind
      · rcases List.mem_cons.mp before with rfl | before
        · exact .inr (.cons_cons _ (List.singleton_sublist.mpr inRest))
        · exact .inl before
      · exact .inr (.cons _ behind)

theorem isFree_mono {taken more : List String} {name : String} (grown : taken ⊆ more)
    (free : isFree links taken name) : isFree links more name :=
  isFree_iff.mpr fun owner leads => grown (isFree_iff.mp free owner leads)

/-- What is taken off the queue is ready, if the queue holds free names only. -/
theorem ready_order (fuel : Nat) (queue waiting taken : List String)
    (free : ∀ name ∈ queue, isFree links taken name) :
    Ready links taken (order links fuel queue waiting taken) := by
  fun_induction order links fuel queue waiting taken with
  | case1 => trivial
  | case2 => trivial
  | case3 fuel name queue waiting taken more released others inductionHypothesis =>
    obtain ⟨first, later⟩ := List.forall_mem_cons.mp free
    refine ⟨first, inductionHypothesis ?_⟩
    intro other membership
    rcases List.mem_append.mp membership with queued | isReleased
    · exact isFree_mono (List.subset_cons_self _ _) (later other queued)
    · exact (List.mem_filter.mp isReleased).2

/-- Among names that lead around no cycle, there is one that none of them leads to. -/
theorem exists_unled (acyclic : ∀ name, ¬ Relation.TransGen (Leads links) name name)
    {names : List String} (nonempty : names ≠ []) :
    ∃ name ∈ names, ∀ owner ∈ names, ¬ Leads links owner name := by
  let Before (first second : { name // name ∈ names }) : Prop :=
    Relation.TransGen (Leads links) first.1 second.1
  have : IsTrans { name // name ∈ names } Before := ⟨fun _ _ _ => Relation.TransGen.trans⟩
  have : Std.Irrefl Before := ⟨fun name => acyclic name.1⟩
  obtain ⟨first, member⟩ := List.exists_mem_of_ne_nil names nonempty
  obtain ⟨least, -, minimal⟩ :=
    (Finite.wellFounded_of_trans_of_irrefl Before).has_min Set.univ ⟨⟨first, member⟩, trivial⟩
  refine ⟨least.1, least.2, ?_⟩
  intro owner isOwner leads
  exact minimal ⟨owner, isOwner⟩ trivial (.single leads)

/-- Without a cycle every name comes off the queue: as long as names wait, one of them is free or is
led to from the queue. -/
theorem order_perm (acyclic : ∀ name, ¬ Relation.TransGen (Leads links) name name)
    (fuel : Nat) (queue waiting taken : List String)
    (enough : queue.length + waiting.length ≤ fuel)
    (bound : ∀ name ∈ waiting, ¬ isFree links taken name)
    (closed : ∀ name ∈ waiting, ∀ owner, Leads links owner name →
      owner ∈ taken ∨ owner ∈ queue ∨ owner ∈ waiting) :
    (order links fuel queue waiting taken).Perm (queue ++ waiting) := by
  fun_induction order links fuel queue waiting taken with
  | case1 queue waiting taken =>
    have noneLeft : queue = [] ∧ waiting = [] := by
      simpa [← List.length_eq_zero_iff] using enough
    rw [noneLeft.1, noneLeft.2]
    exact .nil
  | case2 fuel waiting taken =>
    by_cases none : waiting = []
    · rw [none]
      exact .nil
    · obtain ⟨name, waits, unled⟩ := exists_unled acyclic none
      have free : isFree links taken name := by
        apply isFree_iff.mpr
        intro owner leads
        rcases closed name waits owner leads with before | queued | stillWaits
        · exact before
        · cases queued
        · exact absurd leads (unled owner stillWaits)
      exact absurd free (bound name waits)
  | case3 fuel name queue waiting taken more released others inductionHypothesis =>
    have parts : (released ++ others).Perm waiting := List.filter_append_perm _ waiting
    have enoughLeft : (queue ++ released).length + others.length ≤ fuel := by
      have counted := parts.length_eq
      simp only [List.length_append, List.length_cons] at counted enough ⊢
      omega
    have boundLeft : ∀ other ∈ others, ¬ isFree links more other := by
      intro other waits free
      have notFree := (List.mem_filter.mp waits).2
      rw [free] at notFree
      cases notFree
    have closedLeft : ∀ other ∈ others, ∀ owner, Leads links owner other →
        owner ∈ more ∨ owner ∈ queue ++ released ∨ owner ∈ others := by
      intro other waits owner leads
      rcases closed other (List.mem_filter.mp waits).1 owner leads with before | queued | stillWaits
      · exact .inl (List.mem_cons_of_mem _ before)
      · rcases List.mem_cons.mp queued with rfl | queued
        · exact .inl List.mem_cons_self
        · exact .inr (.inl (List.mem_append_left _ queued))
      · rcases List.mem_append.mp (parts.mem_iff.mpr stillWaits) with isReleased | isOther
        · exact .inr (.inl (List.mem_append_right _ isReleased))
        · exact .inr (.inr isOther)
    have perm := inductionHypothesis enoughLeft boundLeft closedLeft
    rw [List.append_assoc] at perm
    exact .cons name (perm.trans (parts.append_left queue))

theorem mem_names {name : String} : name ∈ names links ↔ ∃ owner, Leads links owner name := by
  have entries : links.map (fun link => (link.2, ())) =
      (links.map Prod.snd).map fun name => (name, ()) := by simp
  rw [names, Fields.names]
  constructor
  · intro named
    obtain ⟨entry, held, rfl⟩ := List.mem_map.mp named
    obtain ⟨link, recorded, rfl⟩ := List.mem_map.mp (Fields.mem_ofList held)
    exact ⟨link.1, recorded⟩
  · rintro ⟨owner, leads⟩
    have found := Fields.get?_ofList_map (fun _ => ())
      (List.mem_map.mpr ⟨(owner, name), leads, rfl⟩ : name ∈ links.map Prod.snd)
    rw [← entries] at found
    by_contra absent
    rw [Fields.get?_eq_none_iff.mpr absent] at found
    cases found

theorem nodup_names (links : List (String × String)) : (names links).Nodup :=
  (Fields.ascending_ofList _).nodup_names

end Dependencies

/-- The names that come off the queue when it is started with the pipeline itself. -/
abbrev Progress.taken (progress : Progress) : List String :=
  Dependencies.order progress.links ((Dependencies.names progress.links).length + 1)
    [Pipeline.root] (Dependencies.names progress.links) []

namespace Pipeline

variable {pipeline resolved : Pipeline} {scope : Scope} {progress : Progress}

theorem root_not_mem_names (returned : pipeline.resolveAll scope = .ok (resolved, progress)) :
    root ∉ Dependencies.names progress.links := by
  obtain ⟨complete, -, -⟩ := records_of_resolveAll returned
  intro named
  obtain ⟨owner, leads⟩ := Dependencies.mem_names.mp named
  exact complete.apart _ leads rfl

theorem taken_perm (returned : pipeline.resolveAll scope = .ok (resolved, progress)) :
    progress.taken.Perm (root :: Dependencies.names progress.links) := by
  obtain ⟨complete, -, -⟩ := records_of_resolveAll returned
  refine Dependencies.order_perm (not_transGen_leads returned) _ _ _ _ ?_ ?_ ?_
  · simp [Nat.add_comm]
  · intro name waits free
    obtain ⟨owner, leads⟩ := Dependencies.mem_names.mp waits
    exact List.not_mem_nil (Dependencies.isFree_iff.mp free owner leads)
  · intro name _ owner leads
    rcases complete.owned _ leads with ⟨isRoot, -⟩ | ⟨reached, -⟩
    · exact .inr (.inl (List.mem_singleton.mpr isRoot))
    · exact .inr (.inr (Dependencies.mem_names.mpr ((exists_leads_iff_reached returned).mpr reached)))

theorem ready_taken (returned : pipeline.resolveAll scope = .ok (resolved, progress)) :
    Dependencies.Ready progress.links [] progress.taken := by
  apply Dependencies.ready_order
  intro name queued
  rw [List.mem_singleton.mp queued]
  apply Dependencies.isFree_iff.mpr
  intro owner leads
  exact absurd (Dependencies.mem_names.mpr ⟨owner, leads⟩) (root_not_mem_names returned)

/-- The dependencies are what comes off the queue, in reverse and without the pipeline itself: no
cycle keeps a name waiting. -/
theorem dependencies_of_resolveAll (returned : pipeline.resolveAll scope = .ok (resolved, progress)) :
    pipeline.dependencies scope = .ok (progress.taken.filter (· != root)).reverse := by
  rw [dependencies, returned, Attempt.ok_bind]
  dsimp only
  rw [if_pos]
  · rfl
  · exact (taken_perm returned).length_eq

/-- Without the pipeline itself, the queue gives up the names that the pipeline reaches. -/
theorem mem_filter_taken (returned : pipeline.resolveAll scope = .ok (resolved, progress))
    {name : String} : name ∈ progress.taken.filter (· != root) ↔ scope.Reached pipeline name := by
  rw [List.mem_filter, (taken_perm returned).mem_iff, List.mem_cons, bne_iff_ne,
    ← exists_leads_iff_reached returned, ← Dependencies.mem_names]
  constructor
  · rintro ⟨isRoot | named, notRoot⟩
    · exact absurd isRoot notRoot
    · exact named
  · intro named
    exact ⟨.inr named, fun isRoot => root_not_mem_names returned (isRoot ▸ named)⟩

/-- Dependencies are found exactly where the pipeline can be resolved.  They are the names that it
reaches, each of them once, and a name comes after all the names that it refers to. -/
theorem dependencies_reached_in_order (pipeline : Pipeline) (scope : Scope) :
    match pipeline.resolve scope with
    | .error failure => pipeline.dependencies scope = .error failure
    | .ok _ =>
      ∃ names, pipeline.dependencies scope = .ok names ∧ names.Nodup ∧
        (∀ name, name ∈ names ↔ scope.Reached pipeline name) ∧
        ∀ name ∈ names, ∀ needed, scope.Refers name needed → [needed, name].Sublist names := by
  rw [resolve]
  cases outcome : pipeline.resolveAll scope with
  | error failure =>
    change pipeline.dependencies scope = .error failure
    rw [dependencies, outcome]
    rfl
  | ok found =>
    obtain ⟨resolved, progress⟩ := found
    have distinct : progress.taken.Nodup := (taken_perm outcome).nodup_iff.mpr
      (List.nodup_cons.mpr ⟨root_not_mem_names outcome, Dependencies.nodup_names _⟩)
    refine ⟨_, dependencies_of_resolveAll outcome, List.nodup_reverse.mpr (distinct.filter _), ?_, ?_⟩
    · intro name
      rw [List.mem_reverse, mem_filter_taken outcome]
    · intro name named needed refers
      rw [List.mem_reverse] at named
      have reached := (mem_filter_taken outcome).mp named
      have needs := (mem_filter_taken outcome).mpr (reached.refers refers)
      -- The queue gives up a name before the ones it refers to; the dependencies are reversed.
      have inOrder := (ready_taken outcome).mem_or_sublist (leads_of_refers outcome reached refers)
        (List.mem_filter.mp needs).1
      have kept := ((inOrder.resolve_left List.not_mem_nil).filter (· != root)).reverse
      simpa [List.filter_cons, (List.mem_filter.mp named).2, (List.mem_filter.mp needs).2] using kept

example : Pipeline.dependencies [.domain "raw", .join (.inline [.domain "right"]) "left" none]
    diamond = .ok ["base", "left", "right"] := by cbv

end Pipeline

end StepQuery
