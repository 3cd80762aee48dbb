/-!
Paths along recorded references.  A link is a pair of names, the first of which refers to the second.
The search goes breadth first, so the path it finds is a shortest one.
-/

namespace StepQuery.Links

def successors (links : List (String × String)) (name : String) : List String :=
  (links.filter fun link => link.1 == name).map (·.2)

/-- The links that lead to a name not seen yet. -/
def unseen (links : List (String × String)) (seen : List String) : List (String × String) :=
  links.filter fun link => !seen.contains link.2

/-- Once all names that a name refers to are seen, its links to fresh ones are unseen no more. -/
theorem length_unseen_append (links : List (String × String)) (seen extra : List String)
    (name : String) (covered : ∀ next ∈ successors links name, next ∈ seen ∨ next ∈ extra) :
    (unseen links (seen ++ extra)).length +
        ((successors links name).filter fun next => !seen.contains next).length ≤
      (unseen links seen).length := by
  induction links with
  | nil => simp [unseen, successors]
  | cons link links inductionHypothesis =>
    by_cases owned : link.1 = name
    · have coveredTail : ∀ next ∈ successors links name, next ∈ seen ∨ next ∈ extra := by
        intro next membership
        exact covered next (by simp [successors, owned] at membership ⊢; exact .inr membership)
      have coveredHead := covered link.2 (by simp [successors, owned])
      have fewer := inductionHypothesis coveredTail
      by_cases old : link.2 ∈ seen
      · simpa [unseen, successors, owned, old] using fewer
      · have isExtra := coveredHead.resolve_left old
        simp [unseen, successors, owned, old, isExtra] at fewer ⊢
        omega
    · have fewer := inductionHypothesis (by simpa [successors, owned] using covered)
      by_cases old : link.2 ∈ seen <;> by_cases isExtra : link.2 ∈ extra <;>
        simp [unseen, successors, owned, old, isExtra] at fewer ⊢ <;> omega

/-- Search for a path to a goal.  The queue holds the ends of the paths found so far, each with the
names before it, the latest first. -/
def search (links : List (String × String)) (goal : String) (queue : List (String × List String))
    (seen : List String) : Option (List String) :=
  match queue with
  | [] => none
  | (name, before) :: rest =>
    if name = goal then some (name :: before).reverse
    else
      let fresh := (successors links name).filter fun next => !seen.contains next
      search links goal (rest ++ fresh.map fun next => (next, name :: before)) (seen ++ fresh)
termination_by (unseen links seen).length + queue.length
decreasing_by
  have fewer := length_unseen_append links seen fresh name (by grind)
  simp only [List.length_append, List.length_map, List.length_cons, fresh] at fewer ⊢
  omega

/-- A shortest path from one name to another, both included. -/
def path? (links : List (String × String)) (start goal : String) : Option (List String) :=
  search links goal [(start, [])] [start]

end StepQuery.Links
