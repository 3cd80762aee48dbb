import StepQuery.Reference.Resolve

/-!
The named pipelines that a pipeline depends on, each after the ones it needs itself.  Names are taken
off a queue once everything that refers to them has been taken off, names that become free together
in ascending order; the dependencies are that order reversed.
-/

namespace StepQuery.Dependencies

/-- Whether everything that refers to a name has been taken. -/
def isFree (links : List (String × String)) (taken : List String) (name : String) : Bool :=
  links.all fun link => link.2 != name || taken.contains link.1

/-- Empty the queue.  Every name enters it once, so `fuel` is bounded by the number of names. -/
def order (links : List (String × String)) :
    (fuel : Nat) → (queue waiting taken : List String) → List String
  | 0, _, _, _ => []
  | _, [], _, _ => []
  | fuel + 1, name :: queue, waiting, taken =>
    let taken := name :: taken
    let free := waiting.filter (isFree links taken)
    let others := waiting.filter fun name => !isFree links taken name
    name :: order links fuel (queue ++ free) others taken

/-- The names referred to, ascending and distinct. -/
def names (links : List (String × String)) : List String :=
  Fields.names (Fields.ofList (links.map fun link => (link.2, ())))

end StepQuery.Dependencies

namespace StepQuery.Pipeline

/-- The names a pipeline depends on, directly or through others, the needed ones first.  Names that
refer to each other around a cycle would never be taken off the queue, and are refused. -/
def dependencies (pipeline : Pipeline) (scope : Scope) : Attempt (List String) := do
  let (_, progress) ← pipeline.resolveAll scope
  let waiting := Dependencies.names progress.links
  let order := Dependencies.order progress.links (waiting.length + 1) [root] waiting []
  if order.length = waiting.length + 1 then return (order.filter (· != root)).reverse
  else throw (.refusal [.seenAs .cyclicReference] .external)

end StepQuery.Pipeline
