import StepQuery.Query.OfPipeline
import StepQuery.Reference.Resolve
import StepQuery.Template.Interpolation

/-!
Compiling: the references of a pipeline are resolved, then its templates are rendered, then what is
left becomes a query.  The rendering may have effects, so compiling is written for any monad.
-/

namespace StepQuery

structure Compiler (m : Type → Type) where
  /-- The name of the backend; an empty one means the usual backend. -/
  backend : String
  simplifies : Bool
  render : String → ExceptT Failure m Value

namespace Compiler

variable {m : Type → Type} [Monad m]

def lift {α : Type} (place : Place) (attempt : Attempt α) : ExceptT Failure m α :=
  ExceptT.mk (pure (Attempt.inside place attempt))

/-- Compile one pipeline.  The scope holds the pipelines it may refer to. -/
def compile (compiler : Compiler m) (scope : Scope) (pipeline : Pipeline) :
    ExceptT Failure m Query := do
  let resolved ← lift .resolving (pipeline.resolve scope)
  let rendered ← Interpolation.inside .rendering (resolved.interpolate compiler.render)
  lift .staging (rendered.toQuery compiler.backend compiler.simplifies)

/-- Compile named pipelines in order.  The checkpoint is passed before each of them and may stop
the work. -/
def compileEach (compiler : Compiler m) (checkpoint : ExceptT Failure m Unit) (scope : Scope) :
    List (String × Pipeline) → ExceptT Failure m (Fields Query)
  | [] => return []
  | (name, pipeline) :: rest => do
    checkpoint
    let query ← Interpolation.inside (.pipeline name) (compiler.compile scope pipeline)
    let others ← compileEach compiler checkpoint scope rest
    return (name, query) :: others

/-- Compile every pipeline of a scope, each of which may refer to the others. -/
def compileAll (compiler : Compiler m) (checkpoint : ExceptT Failure m Unit) (scope : Scope) :
    ExceptT Failure m (Fields Query) :=
  compiler.compileEach checkpoint scope scope

end Compiler

end StepQuery
