import Mathlib.Data.List.Chain
import StepQuery.Reference.Path

/-!
The search for a path is right: what it finds is a path along the links, and it finds nothing only
when no path leads to the goal.
-/

namespace StepQuery.Links

/-- One link leads from the first name to the second. -/
def Leads (links : List (String × String)) (name next : String) : Prop := (name, next) ∈ links

/-- The names of a path in reverse: the latest first, the start last. -/
def Trail (links : List (String × String)) (start : String) (trail : List String) : Prop :=
  trail.getLast? = some start ∧ trail.IsChain fun next name => Leads links name next

variable {links : List (String × String)} {start goal : String}

@[simp]
theorem mem_successors {name next : String} : next ∈ successors links name ↔ Leads links name next := by
  simp [successors, Leads]

theorem Trail.extend {name next : String} {before : List String}
    (trail : Trail links start (name :: before)) (leads : Leads links name next) :
    Trail links start (next :: name :: before) :=
  ⟨trail.1, List.isChain_cons_cons.mpr ⟨leads, trail.2⟩⟩

theorem trail_of_search {queue : List (String × List String)} {seen path : List String}
    (trails : ∀ entry ∈ queue, Trail links start (entry.1 :: entry.2))
    (found : search links goal queue seen = some path) :
    path.getLast? = some goal ∧ Trail links start path.reverse := by
  fun_induction search links goal queue seen with
  | case1 seen => simp at found
  | case2 seen before rest =>
    simp only [Option.some.injEq] at found
    subst found
    refine ⟨by simp, ?_⟩
    rw [List.reverse_reverse]
    exact trails (goal, before) (by simp)
  | case3 seen name before rest other fresh inductionHypothesis =>
    refine inductionHypothesis ?_ found
    intro entry membership
    rcases List.mem_append.mp membership with old | new
    · exact trails entry (List.mem_cons_of_mem _ old)
    · obtain ⟨next, isFresh, rfl⟩ := List.mem_map.mp new
      have leads := mem_successors.mp (List.mem_filter.mp isFresh).1
      exact (trails (name, before) (by simp)).extend leads

/-- A name that needs no further look: it is not the goal and everything after it has been seen. -/
def Done (links : List (String × String)) (goal : String) (seen : List String) (name : String) :
    Prop :=
  name ≠ goal ∧ ∀ next, Leads links name next → next ∈ seen

theorem Done.mono {seen extra : List String} {name : String} (done : Done links goal seen name) :
    Done links goal (seen ++ extra) name :=
  ⟨done.1, fun next leads => List.mem_append_left _ (done.2 next leads)⟩

theorem mem_of_reaches {seen : List String} {name reached : String}
    (closed : ∀ name ∈ seen, ∀ next, Leads links name next → next ∈ seen) (isSeen : name ∈ seen)
    (reaches : Relation.ReflTransGen (Leads links) name reached) : reached ∈ seen := by
  induction reaches with
  | refl => exact isSeen
  | tail _ leads inductionHypothesis => exact closed _ inductionHypothesis _ leads

theorem not_reaches_of_search_eq_none {queue : List (String × List String)} {seen : List String}
    (pending : ∀ name ∈ seen, name ∈ queue.map Prod.fst ∨ Done links goal seen name)
    (nothing : search links goal queue seen = none) {name : String} (isSeen : name ∈ seen) :
    ¬ Relation.ReflTransGen (Leads links) name goal := by
  fun_induction search links goal queue seen with
  | case1 seen =>
    have done : ∀ other ∈ seen, Done links goal seen other := by simpa using pending
    intro reaches
    -- The seen names are closed under links and the goal is not among them.
    have stays : goal ∈ seen := mem_of_reaches (fun other old => (done other old).2) isSeen reaches
    exact (done goal stays).1 rfl
  | case2 seen before rest => simp at nothing
  | case3 seen name' before rest other fresh inductionHypothesis =>
    refine inductionHypothesis ?_ nothing (List.mem_append_left _ isSeen)
    intro name membership
    rcases List.mem_append.mp membership with old | isFresh
    · rcases pending name old with queued | done
      · simp only [List.map_cons, List.mem_cons] at queued
        rcases queued with rfl | queued
        · right
          refine ⟨other, fun next leads => ?_⟩
          by_cases known : next ∈ seen
          · exact List.mem_append_left _ known
          · exact List.mem_append_right _
              (List.mem_filter.mpr ⟨mem_successors.mpr leads, by simpa using known⟩)
        · left
          simp only [List.map_append, List.mem_append]
          exact .inl queued
      · exact .inr done.mono
    · left
      simp only [List.map_append, List.map_map, List.mem_append]
      right
      exact List.mem_map.mpr ⟨name, isFresh, rfl⟩

/-- A path found starts and ends where it should and goes along links. -/
theorem isChain_of_path? {path : List String} (found : path? links start goal = some path) :
    path.head? = some start ∧ path.getLast? = some goal ∧ path.IsChain (Leads links) := by
  have trails : ∀ entry ∈ [(start, ([] : List String))], Trail links start (entry.1 :: entry.2) := by
    simp [Trail]
  obtain ⟨last, first, chain⟩ := trail_of_search trails found
  refine ⟨by simpa using first, last, ?_⟩
  exact List.isChain_reverse.mp chain

/-- If no path is found, none exists. -/
theorem not_reaches_of_path?_eq_none (nothing : path? links start goal = none) :
    ¬ Relation.ReflTransGen (Leads links) start goal :=
  not_reaches_of_search_eq_none (by simp) nothing (by simp)

end StepQuery.Links
