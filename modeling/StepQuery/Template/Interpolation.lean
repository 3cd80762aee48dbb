import StepQuery.Casting
import StepQuery.Pipeline.Copy

/-!
Rendering the templated parameters of a pipeline.  Only texts are rendered, everything else stays as
it is.  The rendering of one text may have effects of its own, so the traversal is written for any
monad in which it can fail.
-/

namespace StepQuery.Interpolation

variable {m : Type → Type} [Monad m]

/-- A computation that renders templates and may fail. -/
abbrev Rendering (m : Type → Type) := ExceptT Failure m

def inside {α : Type} (place : Place) (action : Rendering m α) : Rendering m α :=
  ExceptT.adapt (Failure.within place) action

def value (render : String → Rendering m Value) : Value → Rendering m Value
  | .text template => render template
  | other => pure other.copy

def values (render : String → Rendering m Value) : List Value → Rendering m (List Value)
  | [] => pure []
  | first :: rest => do
    let found ← value render first
    let others ← values render rest
    return found :: others

/-- The value of a comparison: a list is rendered item by item. -/
def comparedValue (render : String → Rendering m Value) : Value → Rendering m Value
  | .list items => do return .list (← values render items)
  | other => value render other

mutual

def condition (render : String → Rendering m Value) : Condition → Rendering m Condition
  | .absent => pure .absent
  | .simple comparison => do
    let found ← inside (.conditionOn comparison.column) (comparedValue render comparison.value)
    return .simple { comparison with value := found }
  | .all children => do return .all (← conditions render children)
  | .any children => do return .any (← conditions render children)

def conditions (render : String → Rendering m Value) :
    List Condition → Rendering m (List Condition)
  | [] => pure []
  | first :: rest => do
    let found ← condition render first
    let others ← conditions render rest
    return found :: others

end

def branch (render : String → Rendering m Value) : Branch → Rendering m Branch
  | .last test consequent alternative => do
    let test ← condition render test
    let consequent ← value render consequent
    let alternative ← value render alternative
    return .last test consequent alternative
  | .chain test consequent next => do
    let test ← condition render test
    let consequent ← value render consequent
    let next ← branch render next
    return .chain test consequent next

def replacements (render : String → Rendering m Value) :
    (index : Nat) → List (Value × Value) → Rendering m (List (Value × Value))
  | _, [] => pure []
  | index, (old, new) :: rest => do
    let old ← inside (.replacement index) (value render old)
    let new ← inside (.replacement index) (value render new)
    let others ← replacements render (index + 1) rest
    return (old, new) :: others

/-- A limit has to be a number, after rendering if it is a text. -/
def limit (render : String → Rendering m Value) (held : Value) : Rendering m Value := do
  let found ← value render held
  inside .limit (ExceptT.mk (pure (Casting.number found)))

def operation (render : String → Rendering m Value) : Operation → Rendering m Operation
  | .filter held => do return .filter (← condition render held)
  | .formula newColumn held => do return .formula newColumn (← value render held)
  | .fillna columns held => do return .fillna (copyList columns) (← value render held)
  | .text newColumn held => do return .text newColumn (← value render held)
  | .replace column none => return .replace column none
  | .replace column (some pairs) => do
    return .replace column (some (← replacements render 0 pairs))
  | .top groups rankOn order held => do
    return .top (copyList groups) rankOn order (← limit render held)
  | .ifThenElse newColumn held => do return .ifThenElse newColumn (← branch render held)
  | other => pure other.copy

mutual

def steps (render : String → Rendering m Value) : (index : Nat) → List Step →
    Rendering m (List Step)
  | _, [] => pure []
  | index, first :: rest => do
    let found ← inside (.stepOf index first.name) (step render first)
    let others ← steps render (index + 1) rest
    return found :: others

def step (render : String → Rendering m Value) : Step → Rendering m Step
  | .domain name => pure (.domain name)
  | .append none => pure (.append (some []))
  | .append (some sources) => do return .append (some (← references render sources))
  | .join right type on => do return .join (← reference render right) type (copyList on)
  | .transform held => do return .transform (← operation render held)

def references (render : String → Rendering m Value) :
    List Reference → Rendering m (List Reference)
  | [] => pure []
  | first :: rest => do
    let found ← reference render first
    let others ← references render rest
    return found :: others

def reference (render : String → Rendering m Value) : Reference → Rendering m Reference
  | .named name => pure (.named name)
  | .inline pipeline => do return .inline (← steps render 0 pipeline)

end

end StepQuery.Interpolation

namespace StepQuery.Pipeline

def interpolate {m : Type → Type} [Monad m] (pipeline : Pipeline)
    (render : String → ExceptT Failure m Value) : ExceptT Failure m Pipeline :=
  Interpolation.steps render 0 pipeline

end StepQuery.Pipeline
