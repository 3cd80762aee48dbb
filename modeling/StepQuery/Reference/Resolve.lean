import StepQuery.Pipeline.Copy
import StepQuery.Reference.Path
import StepQuery.Failure

/-!
Resolving the named pipelines that a pipeline refers to.  A domain step that names one is replaced by
its steps; appended and joined names become pipelines written in place.  A name that is not known is
a collection of the database and ends the search.

Every named pipeline is resolved once and copied wherever it is used.  The references met are
recorded as links from the pipeline that makes them, its owner; a link that would close a cycle is
refused, and that ends the search where pipelines refer to each other.
-/

namespace StepQuery

/-- What resolving has found so far. -/
structure Progress where
  /-- The references met, each from its owner, oldest first. -/
  links : List (String × String)
  /-- The named pipelines resolved to the end. -/
  resolved : Fields Pipeline

/-- A computation that resolves names on its way. -/
abbrev Resolving := StateT Progress Attempt

namespace Resolving

def inside {α : Type} (place : Place) (action : Resolving α) : Resolving α :=
  fun progress => Attempt.inside place (action progress)

mutual

/-- Resolve the names of a pipeline, given how a name is looked up.  A name looks up to nothing
when it is a collection. -/
def steps (find : String → Resolving (Option Pipeline)) : (index : Nat) → List Step →
    Resolving (List Step)
  | _, [] => pure []
  | index, first :: rest => do
    let found ← step find index first
    let others ← steps find (index + 1) rest
    return found ++ others

def step (find : String → Resolving (Option Pipeline)) (index : Nat) :
    Step → Resolving (List Step)
  | .domain name => do
    match ← find name with
    | some pipeline => return pipeline
    | none => return [.domain name]
  | .append none => return [.append (some [])]
  | .append (some sources) => do return [.append (some (← references find index 0 sources))]
  | .join right type on => do
    return [.join (← inside (.joinSource index) (reference find right)) type (copyList on)]
  | .transform operation => return [.transform operation.copy]

def references (find : String → Resolving (Option Pipeline)) (index : Nat) :
    (source : Nat) → List Reference → Resolving (List Reference)
  | _, [] => pure []
  | source, first :: rest => do
    let found ← inside (.appendSource index source) (reference find first)
    let others ← references find index (source + 1) rest
    return found :: others

def reference (find : String → Resolving (Option Pipeline)) : Reference → Resolving Reference
  | .named name => do
    match ← find name with
    | some pipeline => return .inline pipeline
    | none => return .inline [.domain name]
  | .inline pipeline => do return .inline (← steps find 0 pipeline)

end

/-- Record a reference from its owner, unless it closes a cycle.  A refusal shows the whole
cycle. -/
def link (owner name : String) : Resolving Unit := do
  let links := (← get).links
  if owner = name then throw (.refusal [] (.cycle [name, name]))
  else if links.contains (owner, name) then pure ()
  else
    match Links.path? links name owner with
    | some path => throw (.refusal [] (.cycle (owner :: path)))
    | none => modify fun progress => { progress with links := links ++ [(owner, name)] }

/-- Look a name up and resolve what it stands for.  Owners being resolved are distinct, because the
links refuse a cycle, so a depth that exceeds the number of names is never used up. -/
def find (scope : Scope) : (depth : Nat) → (owner name : String) → Resolving (Option Pipeline)
  | 0, _, _ => throw (.refusal [] .external)
  | depth + 1, owner, name =>
    match Fields.get? scope name with
    | none => pure none
    | some target => do
      link owner name
      match Fields.get? (← get).resolved name with
      | some known => return some (Pipeline.copy known)
      | none =>
        let found ← steps (find scope depth name) 0 target
        modify fun progress => { progress with resolved := Fields.set name found progress.resolved }
        return some (Pipeline.copy found)

end Resolving

namespace Pipeline

/-- The name that owns the references of the pipeline being resolved. -/
def root : String := "\x00root"

/-- Resolve a pipeline and tell what was found on the way. -/
def resolveAll (pipeline : Pipeline) (scope : Scope) : Attempt (Pipeline × Progress) :=
  (Resolving.steps (Resolving.find scope (scope.length + 1) root) 0 pipeline).run ⟨[], []⟩

/-- Replace every named reference by the pipeline it stands for. -/
def resolve (pipeline : Pipeline) (scope : Scope) : Attempt Pipeline :=
  (pipeline.resolveAll scope).map (·.1)

end Pipeline

end StepQuery
