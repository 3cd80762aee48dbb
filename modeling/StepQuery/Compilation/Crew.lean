import StepQuery.Compilation

/-!
Compiling the pipelines of a scope at the same time.  Every pipeline has a worker of its own.  The
caller starts the workers in the order of their names, no more of them at once than there are slots;
it waits until all of them are gone, and then returns the queries or the failure noted first.

The caller and the workers take steps in any order.  What the workers share is a board: the queries
found, the first failure, and whether the work is called off.  A worker changes the board in one step,
and compiling reads nothing from it.  A failure is noted before the work is called off, and a worker
that then begins gives up with a failure of its own.  A worker that stops at a number takes the whole
program with it.
-/

namespace StepQuery

/-- What compiling one pipeline comes to, with a renderer that has no effects. -/
def Compiler.attempt (compiler : Compiler Id) (scope : Scope) (pipeline : Pipeline) : Attempt Query :=
  Id.run (compiler.compile scope pipeline).run

namespace Crew

/-- How far a worker has come. -/
inductive Phase where
  | waiting
  /-- About to look whether the work is called off. -/
  | started
  | compiling
  | storing (query : Query)
  | failing (failure : Failure)
  /-- The failure is noted, the work is not called off yet. -/
  | cancelling
  /-- Nothing left to do, the slot still taken. -/
  | finishing
  /-- The slot is given back, the caller still waits for the worker. -/
  | leaving
  | gone

namespace Phase

def holdsSlot : Phase → Bool
  | .waiting | .leaving | .gone => false
  | _ => true

def isWaiting : Phase → Bool
  | .waiting => true
  | _ => false

end Phase

structure Worker where
  name : String
  pipeline : Pipeline
  phase : Phase

/-- What the workers share. -/
structure Board where
  queries : Fields Query
  failure? : Option Failure
  cancelled : Bool

/-- What the caller returns once all workers are gone. -/
def Board.result (board : Board) : Attempt (Fields Query) :=
  match board.failure? with
  | some failure => .error failure
  | none => .ok board.queries

/-- The failure of a worker that begins when the work is called off. -/
def cancellation : Failure := .refusal [] .cancelled

/-- One turn of a worker, given its name and what compiling its pipeline comes to.  Of several
failures only the first is noted. -/
inductive Turn (name : String) (compiled : Attempt Query) : Phase × Board → Phase × Board → Prop where
  | begins {board : Board} : board.cancelled = false →
      Turn name compiled (.started, board) (.compiling, board)
  | givesUp {board : Board} : board.cancelled = true →
      Turn name compiled (.started, board) (.failing cancellation, board)
  | compiles {board : Board} {query : Query} : compiled = .ok query →
      Turn name compiled (.compiling, board) (.storing query, board)
  | refuses {board : Board} {places : List Place} {cause : Cause} :
      compiled = .error (.refusal places cause) →
      Turn name compiled (.compiling, board)
        (.failing (Failure.within (.pipeline name) (.refusal places cause)), board)
  | stores {board : Board} {query : Query} :
      Turn name compiled (.storing query, board)
        (.finishing, { board with queries := board.queries.set name query })
  | notes {board : Board} {failure : Failure} : board.failure? = none →
      Turn name compiled (.failing failure, board)
        (.cancelling, { board with failure? := some failure })
  | drops {board : Board} {failure first : Failure} : board.failure? = some first →
      Turn name compiled (.failing failure, board) (.finishing, board)
  | cancels {board : Board} :
      Turn name compiled (.cancelling, board) (.finishing, { board with cancelled := true })
  | finishes {board : Board} : Turn name compiled (.finishing, board) (.leaving, board)
  | leaves {board : Board} : Turn name compiled (.leaving, board) (.gone, board)

/-- Whether a worker can be started.  Without a positive number of slots there is no limit. -/
def HasSlot (slots : Int) (workers : List Worker) : Prop :=
  slots ≤ 0 ∨ (workers.countP (·.phase.holdsSlot) : Int) < slots

end Crew

/-- All workers, what they share, and what the work has come to, once it has. -/
structure Crew where
  workers : List Crew.Worker
  board : Crew.Board
  outcome? : Option (Attempt (Fields Query))

namespace Crew

/-- Nobody has started. -/
def beginning (scope : Scope) : Crew where
  workers := scope.map fun entry => ⟨entry.1, entry.2, .waiting⟩
  board := ⟨[], none, false⟩
  outcome? := none

/-- One step of the whole crew, as long as the work has not come to an outcome. -/
inductive Step (compiler : Compiler Id) (scope : Scope) (slots : Int) : Crew → Crew → Prop where
  /-- The caller starts the first worker that waits. -/
  | start {before after : List Worker} {worker : Worker} {board : Board} :
      worker.phase.isWaiting → (∀ other ∈ before, ¬ other.phase.isWaiting) →
      HasSlot slots (before ++ worker :: after) →
      Step compiler scope slots ⟨before ++ worker :: after, board, none⟩
        ⟨before ++ { worker with phase := .started } :: after, board, none⟩
  /-- Any worker takes its turn. -/
  | turn {before after : List Worker} {worker : Worker} {phase : Phase} {board changed : Board} :
      Turn worker.name (compiler.attempt scope worker.pipeline) (worker.phase, board)
        (phase, changed) →
      Step compiler scope slots ⟨before ++ worker :: after, board, none⟩
        ⟨before ++ { worker with phase := phase } :: after, changed, none⟩
  /-- A worker stops at a number, and everything with it. -/
  | stop {before after : List Worker} {worker : Worker} {board : Board} {number : Float} :
      worker.phase = .compiling →
      compiler.attempt scope worker.pipeline = .error (.notFinite number) →
      Step compiler scope slots ⟨before ++ worker :: after, board, none⟩
        ⟨before ++ worker :: after, board, some (.error (.notFinite number))⟩
  /-- The caller returns. -/
  | finish {workers : List Worker} {board : Board} : (∀ worker ∈ workers, worker.phase = .gone) →
      Step compiler scope slots ⟨workers, board, none⟩
        ⟨workers, { board with cancelled := true }, some board.result⟩

end Crew

end StepQuery
