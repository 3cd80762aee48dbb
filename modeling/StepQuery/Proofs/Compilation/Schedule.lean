import Mathlib
import StepQuery.Compilation.Crew
import StepQuery.Proofs.Fields
import StepQuery.Proofs.Template.Rendering

/-!
Compiling at the same time comes to the same as compiling one by one.  In whatever order the workers
start, take their turns and leave, and however many of them may be at work at once, the work ends; it
ends with the queries of all pipelines if every pipeline has one, and otherwise with the failure of
one of them, never with that of a worker that was called off.

`Sound` says what holds of a crew at every moment.  The point is that the work is called off only
once a failure has been noted, so that a worker which gives up can never be the first to fail.
-/

namespace StepQuery

namespace Compiler

open Interpolation (Gives gives_bind gives_inside gives_pure)

/-- The queries are those of the tasks: the same names, each with what its pipeline is compiled to. -/
def Compiles (compiler : Compiler Id) (scope : Scope) (tasks : List (String × Pipeline))
    (queries : Fields Query) : Prop :=
  List.Forall₂ (fun task found => found.1 = task.1 ∧ compiler.attempt scope task.2 = .ok found.2)
    tasks queries

/-- The failure is that of one of the pipelines, with the name of the pipeline in front. -/
def Blames (compiler : Compiler Id) (scope : Scope) (failure : Failure) : Prop :=
  ∃ task ∈ scope, ∃ reason, compiler.attempt scope task.2 = .error reason ∧
    failure = reason.within (.pipeline task.1)

variable {compiler : Compiler Id} {scope : Scope}

/-- Compiling one by one succeeds exactly if every pipeline can be compiled. -/
theorem gives_compileEach {tasks : List (String × Pipeline)} {queries : Fields Query} :
    Gives (compiler.compileEach (pure ()) scope tasks) queries ↔
      compiler.Compiles scope tasks queries := by
  induction tasks generalizing queries with
  | nil => rw [compileEach, gives_pure, Compiles, List.forall₂_nil_left_iff, eq_comm]
  | cons task rest inductionHypothesis =>
    obtain ⟨name, pipeline⟩ := task
    simp only [compileEach, gives_bind, gives_inside, gives_pure, inductionHypothesis]
    rw [Compiles, List.forall₂_cons_left_iff]
    constructor
    · rintro ⟨_, _, query, compiled, others, later, rfl⟩
      exact ⟨(name, query), others, ⟨rfl, compiled⟩, later, rfl⟩
    · rintro ⟨⟨_, query⟩, others, ⟨rfl, compiled⟩, later, rfl⟩
      exact ⟨(), trivial, query, compiled, others, later, rfl⟩

namespace Compiles

variable {tasks : List (String × Pipeline)} {queries : Fields Query}

theorem mem (compiles : compiler.Compiles scope tasks queries) {entry : String × Query} :
    entry ∈ queries ↔
      ∃ task ∈ tasks, entry.1 = task.1 ∧ compiler.attempt scope task.2 = .ok entry.2 := by
  induction compiles with
  | nil => simp
  | @cons task found rest others first _ inductionHypothesis =>
    rw [List.mem_cons, inductionHypothesis]
    constructor
    · rintro (rfl | ⟨task', later, same⟩)
      · exact ⟨task, List.mem_cons_self, first⟩
      · exact ⟨task', List.mem_cons_of_mem _ later, same⟩
    · rintro ⟨task', member, named, compiled⟩
      rcases List.mem_cons.mp member with rfl | later
      · refine .inl (Prod.ext (named.trans first.1.symm) ?_)
        exact Except.ok.inj (compiled.symm.trans first.2)
      · exact .inr ⟨task', later, named, compiled⟩

theorem ok (compiles : compiler.Compiles scope tasks queries) {task : String × Pipeline}
    (member : task ∈ tasks) : ∃ query, compiler.attempt scope task.2 = .ok query := by
  induction compiles with
  | nil => cases member
  | cons first _ inductionHypothesis =>
    rcases List.mem_cons.mp member with rfl | later
    · exact ⟨_, first.2⟩
    · exact inductionHypothesis later

theorem names_eq (compiles : compiler.Compiles scope tasks queries) :
    Fields.names queries = Fields.names tasks := by
  induction compiles with
  | nil => rfl
  | cons first _ inductionHypothesis =>
    rw [Fields.names, Fields.names, List.map_cons, List.map_cons, first.1]
    exact congrArg _ inductionHypothesis

theorem ascending (compiles : compiler.Compiles scope tasks queries)
    (ordered : Fields.Ascending tasks) : Fields.Ascending queries := by
  have names : (Fields.names tasks).Pairwise (· < ·) := List.pairwise_map.mpr ordered
  rw [← compiles.names_eq] at names
  exact List.pairwise_map.mp names

end Compiles

end Compiler

namespace Crew

open Compiler (Compiles Blames)

/-- However the steps fall, the crew comes to an outcome, and to one with the property: it has one
already, or some step can be taken and each leads to a crew that does. -/
inductive Inevitable (compiler : Compiler Id) (scope : Scope) (slots : Int)
    (property : Attempt (Fields Query) → Prop) : Crew → Prop where
  | ended {crew : Crew} {outcome : Attempt (Fields Query)} : crew.outcome? = some outcome →
      property outcome → Inevitable compiler scope slots property crew
  | onward {crew : Crew} : (∃ next, Step compiler scope slots crew next) →
      (∀ next, Step compiler scope slots crew next →
        Inevitable compiler scope slots property next) →
      Inevitable compiler scope slots property crew

section Ending

/-- How many turns a worker has left at most. -/
def Phase.rank : Phase → Nat
  | .waiting => 8
  | .started => 7
  | .compiling => 6
  | .storing _ | .failing _ => 5
  | .cancelling => 4
  | .finishing => 3
  | .leaving => 2
  | .gone => 1

/-- How many steps a crew has left at most. -/
def rank (crew : Crew) : Nat :=
  (crew.workers.map fun worker => worker.phase.rank).sum + if crew.outcome?.isNone then 1 else 0

theorem Turn.rank_lt {name : String} {compiled : Attempt Query} {phase phase' : Phase}
    {board board' : Board} (turn : Turn name compiled (phase, board) (phase', board')) :
    phase'.rank < phase.rank := by
  cases turn <;> simp [Phase.rank]

variable {compiler : Compiler Id} {scope : Scope} {slots : Int}

theorem Step.rank_lt {crew next : Crew} (step : Step compiler scope slots crew next) :
    next.rank < crew.rank := by
  cases step with
  | @start before after worker board waiting _ _ =>
    have started : Phase.started.rank < worker.phase.rank := by
      cases phase : worker.phase <;> simp_all [Phase.isWaiting, Phase.rank]
    simp only [rank, List.map_append, List.map_cons, List.sum_append, List.sum_cons]
    omega
  | turn turn =>
    have fewer := turn.rank_lt
    simp only [rank, List.map_append, List.map_cons, List.sum_append, List.sum_cons]
    omega
  | stop compiling stopped => simp [rank]
  | finish gone => simp [rank]

/-- A worker that has started and is not gone can take a turn, or stops everything. -/
theorem exists_step_of_active {before after : List Worker} {worker : Worker} {board : Board}
    (active : worker.phase.isWaiting = false) (present : worker.phase ≠ .gone) :
    ∃ next, Step compiler scope slots ⟨before ++ worker :: after, board, none⟩ next := by
  obtain ⟨name, pipeline, phase⟩ := worker
  cases phase with
  | waiting => cases active
  | started =>
    cases called : board.cancelled with
    | true => exact ⟨_, .turn (.givesUp called)⟩
    | false => exact ⟨_, .turn (.begins called)⟩
  | compiling =>
    cases compiled : compiler.attempt scope pipeline with
    | ok query => exact ⟨_, .turn (.compiles compiled)⟩
    | error failure =>
      cases failure with
      | refusal places cause => exact ⟨_, .turn (.refuses compiled)⟩
      | notFinite number => exact ⟨_, .stop rfl compiled⟩
  | storing query => exact ⟨_, .turn .stores⟩
  | failing failure =>
    cases noted : board.failure? with
    | none => exact ⟨_, .turn (.notes noted)⟩
    | some first => exact ⟨_, .turn (.drops noted)⟩
  | cancelling => exact ⟨_, .turn .cancels⟩
  | finishing => exact ⟨_, .turn .finishes⟩
  | leaving => exact ⟨_, .turn .leaves⟩
  | gone => exact absurd rfl present

/-- Nobody waits for ever: if no worker can take a turn, no slot is taken, so that a worker which
waits can be started. -/
theorem exists_step (workers : List Worker) (board : Board) :
    ∃ next, Step compiler scope slots ⟨workers, board, none⟩ next := by
  by_cases active : ∃ worker ∈ workers, worker.phase.isWaiting = false ∧ worker.phase ≠ .gone
  · obtain ⟨worker, member, started, present⟩ := active
    obtain ⟨before, after, rfl⟩ := List.append_of_mem member
    exact exists_step_of_active started present
  · have idle : ∀ worker ∈ workers, worker.phase.isWaiting ∨ worker.phase = .gone := by
      intro worker member
      by_contra busy
      rw [not_or, Bool.not_eq_true] at busy
      exact active ⟨worker, member, busy⟩
    cases search : workers.find? (·.phase.isWaiting) with
    | none =>
      refine ⟨_, .finish fun worker member => (idle worker member).resolve_left ?_⟩
      exact List.find?_eq_none.mp search worker member
    | some worker =>
      obtain ⟨waits, before, after, rfl, earlier⟩ := List.find?_eq_some_iff_append.mp search
      refine ⟨_, .start waits (fun other member => by simpa using earlier other member) ?_⟩
      have noneHeld : (before ++ worker :: after).countP (·.phase.holdsSlot) = 0 := by
        rw [List.countP_eq_zero]
        intro other member
        rcases idle other member with waiting | gone
        · cases phase : other.phase <;> simp_all [Phase.isWaiting, Phase.holdsSlot]
        · simp [gone, Phase.holdsSlot]
      rw [HasSlot, noneHeld]
      omega

end Ending

section Soundness

/-- What the board says is true of the scope. -/
structure Board.Sound (compiler : Compiler Id) (scope : Scope) (board : Board) : Prop where
  ascending : Fields.Ascending board.queries
  /-- Every query is that of the pipeline of its name. -/
  held : ∀ entry ∈ board.queries,
    ∃ task ∈ scope, entry.1 = task.1 ∧ compiler.attempt scope task.2 = .ok entry.2
  noted : ∀ failure, board.failure? = some failure → compiler.Blames scope failure
  /-- The work is called off only after a failure has been noted. -/
  called : board.cancelled = true → board.failure?.isSome

/-- The query of a task is on the board. -/
def Board.Holds (compiler : Compiler Id) (scope : Scope) (board : Board)
    (task : String × Pipeline) : Prop :=
  ∃ query, compiler.attempt scope task.2 = .ok query ∧
    Fields.get? board.queries task.1 = some query

/-- A later board has all that an earlier one has. -/
structure Board.Grows (compiler : Compiler Id) (scope : Scope) (board later : Board) : Prop where
  failure : board.failure?.isSome → later.failure?.isSome
  queries : ∀ task ∈ scope, board.Holds compiler scope task → later.Holds compiler scope task

abbrev Worker.task (worker : Worker) : String × Pipeline := (worker.name, worker.pipeline)

/-- What a worker knows in its phase.  One that is done has stored its query, unless a failure has
been noted. -/
def Worker.Sound (compiler : Compiler Id) (scope : Scope) (board : Board) (worker : Worker) : Prop :=
  match worker.phase with
  | .waiting | .started | .compiling => True
  | .storing query => compiler.attempt scope worker.pipeline = .ok query
  | .failing failure => board.failure?.isSome ∨ compiler.Blames scope failure
  | .cancelling => board.failure?.isSome
  | .finishing | .leaving | .gone =>
    board.failure?.isSome ∨ board.Holds compiler scope worker.task

/-- What holds of a crew at every moment before the outcome. -/
structure Sound (compiler : Compiler Id) (scope : Scope) (workers : List Worker) (board : Board) :
    Prop where
  tasks : workers.map Worker.task = scope
  truthful : board.Sound compiler scope
  knowing : ∀ worker ∈ workers, worker.Sound compiler scope board

variable {compiler : Compiler Id} {scope : Scope} {slots : Int}

theorem Board.Grows.refl (board : Board) : board.Grows compiler scope board :=
  ⟨id, fun _ _ => id⟩

/-- What another worker writes on the board takes nothing away. -/
theorem Worker.Sound.grows {worker : Worker} {board later : Board} (member : worker.task ∈ scope)
    (grows : board.Grows compiler scope later) (sound : worker.Sound compiler scope board) :
    worker.Sound compiler scope later := by
  obtain ⟨name, pipeline, phase⟩ := worker
  cases phase with
  | waiting | started | compiling => trivial
  | storing query => exact sound
  | failing failure => exact sound.imp_left grows.failure
  | cancelling => exact grows.failure sound
  | finishing | leaving | gone => exact sound.imp grows.failure (grows.queries _ member)

/-- A stored query does not displace another: names are distinct. -/
theorem Board.grows_set (ascending : Fields.Ascending scope) {name : String} {pipeline : Pipeline}
    {query : Query} (member : (name, pipeline) ∈ scope)
    (compiled : compiler.attempt scope pipeline = .ok query) (board : Board) :
    board.Grows compiler scope { board with queries := board.queries.set name query } where
  failure := id
  queries := by
    rintro ⟨other, otherPipeline⟩ isOther ⟨found, otherCompiled, held⟩
    by_cases same : name = other
    · have equal := ascending.eq_of_mem member isOther same
      cases equal
      exact ⟨query, compiled, Fields.get?_set_self name query board.queries⟩
    · exact ⟨found, otherCompiled, (Fields.get?_set_of_ne same query board.queries).trans held⟩

theorem Board.Sound.set {board : Board} (sound : board.Sound compiler scope) {name : String}
    {pipeline : Pipeline} {query : Query} (member : (name, pipeline) ∈ scope)
    (compiled : compiler.attempt scope pipeline = .ok query) :
    Board.Sound compiler scope { board with queries := board.queries.set name query } where
  ascending := sound.ascending.set name query
  held := by
    intro entry within
    rcases Fields.mem_set within with rfl | old
    · exact ⟨(name, pipeline), member, rfl, compiled⟩
    · exact sound.held entry old
  noted := sound.noted
  called := sound.called

/-- One turn keeps the board true, takes nothing away from it, and leaves the worker with what it has
to know. -/
theorem Turn.keeps (ascending : Fields.Ascending scope) {worker : Worker} {phase : Phase}
    {board later : Board} (member : worker.task ∈ scope) (sound : board.Sound compiler scope)
    (knows : worker.Sound compiler scope board)
    (turn : Turn worker.name (compiler.attempt scope worker.pipeline) (worker.phase, board)
      (phase, later)) :
    later.Sound compiler scope ∧ board.Grows compiler scope later ∧
      Worker.Sound compiler scope later { worker with phase := phase } := by
  obtain ⟨name, pipeline, before⟩ := worker
  dsimp only at turn
  cases turn with
  | begins => exact ⟨sound, .refl board, trivial⟩
  | givesUp called => exact ⟨sound, .refl board, .inl (sound.called called)⟩
  | compiles compiled => exact ⟨sound, .refl board, compiled⟩
  | refuses compiled =>
    exact ⟨sound, .refl board, .inr ⟨(name, pipeline), member, _, compiled, rfl⟩⟩
  | @stores _ query =>
    refine ⟨sound.set member knows, board.grows_set ascending member knows, .inr ⟨query, knows, ?_⟩⟩
    exact Fields.get?_set_self name query board.queries
  | notes none =>
    -- The first failure to be noted is not that of a worker that gave up, for which one was needed.
    have blamed := knows.resolve_left (by rw [none]; exact Bool.false_ne_true)
    refine ⟨{ sound with noted := ?_, called := fun _ => rfl }, ⟨fun _ => rfl, fun _ _ => id⟩, rfl⟩
    rintro _ ⟨⟩
    exact blamed
  | drops noted => exact ⟨sound, .refl board, .inl (by rw [noted]; rfl)⟩
  | cancels =>
    exact ⟨{ sound with called := fun _ => knows }, ⟨id, fun _ _ => id⟩, .inl knows⟩
  | finishes => exact ⟨sound, .refl board, knows⟩
  | leaves => exact ⟨sound, .refl board, knows⟩

/-- A crew stays sound when one worker changes its phase and the board grows. -/
theorem Sound.replace {before after : List Worker} {worker : Worker} {phase : Phase}
    {board later : Board} (sound : Sound compiler scope (before ++ worker :: after) board)
    (laterSound : later.Sound compiler scope) (grows : board.Grows compiler scope later)
    (knows : Worker.Sound compiler scope later { worker with phase := phase }) :
    Sound compiler scope (before ++ { worker with phase := phase } :: after) later where
  tasks := by
    rw [← sound.tasks]
    simp
  truthful := laterSound
  knowing := by
    have others : ∀ other ∈ before ++ worker :: after, other.Sound compiler scope later := by
      intro other within
      have task : other.task ∈ scope := sound.tasks ▸ List.mem_map.mpr ⟨other, within, rfl⟩
      exact (sound.knowing other within).grows task grows
    intro other within
    rcases List.mem_append.mp within with early | late
    · exact others other (List.mem_append_left _ early)
    · rcases List.mem_cons.mp late with rfl | late
      · exact knows
      · exact others other (List.mem_append_right _ (List.mem_cons_of_mem _ late))

/-- What the work has to come to. -/
def Right (compiler : Compiler Id) (scope : Scope) (outcome : Attempt (Fields Query)) : Prop :=
  (∃ queries, compiler.Compiles scope scope queries ∧ outcome = .ok queries) ∨
    ∃ failure, compiler.Blames scope failure ∧ outcome = .error failure

theorem compiles_of_holds {board : Board} {tasks : List (String × Pipeline)}
    (holds : ∀ task ∈ tasks, board.Holds compiler scope task) :
    ∃ queries, compiler.Compiles scope tasks queries ∧ ∀ entry ∈ queries, entry ∈ board.queries := by
  induction tasks with
  | nil => exact ⟨[], .nil, by simp⟩
  | cons task rest inductionHypothesis =>
    obtain ⟨⟨query, compiled, held⟩, later⟩ := List.forall_mem_cons.mp holds
    obtain ⟨queries, compiles, included⟩ := inductionHypothesis later
    refine ⟨(task.1, query) :: queries, .cons ⟨rfl, compiled⟩ compiles, ?_⟩
    exact List.forall_mem_cons.mpr ⟨Fields.mem_of_get? held, included⟩

/-- When all workers are gone and no failure has been noted, the board has all queries and no other. -/
theorem Sound.compiles (ascending : Fields.Ascending scope) {workers : List Worker} {board : Board}
    (sound : Sound compiler scope workers board) (gone : ∀ worker ∈ workers, worker.phase = .gone)
    (well : board.failure? = none) : compiler.Compiles scope scope board.queries := by
  have holds : ∀ task ∈ scope, board.Holds compiler scope task := by
    intro task member
    rw [← sound.tasks] at member
    obtain ⟨worker, within, rfl⟩ := List.mem_map.mp member
    have knows := sound.knowing worker within
    rw [Worker.Sound, gone worker within] at knows
    exact knows.resolve_left (by rw [well]; exact Bool.false_ne_true)
  obtain ⟨queries, compiles, included⟩ := compiles_of_holds holds
  have same : queries = board.queries := by
    refine Fields.Ascending.ext (compiles.ascending ascending) sound.truthful.ascending ?_
    intro entry
    exact ⟨included entry, fun held => compiles.mem.mpr (sound.truthful.held entry held)⟩
  exact same ▸ compiles

/-- One step leaves a sound crew, or the outcome that is right. -/
theorem Sound.step (ascending : Fields.Ascending scope) {workers : List Worker} {board : Board}
    {next : Crew} (sound : Sound compiler scope workers board)
    (step : Step compiler scope slots ⟨workers, board, none⟩ next) :
    next.outcome? = none ∧ Sound compiler scope next.workers next.board ∨
      ∃ outcome, next.outcome? = some outcome ∧ Right compiler scope outcome := by
  cases step with
  | start => exact .inl ⟨rfl, sound.replace sound.truthful (.refl board) trivial⟩
  | @turn before after worker phase _ later turn =>
    have within : worker ∈ before ++ worker :: after := by simp
    have member : worker.task ∈ scope := sound.tasks ▸ List.mem_map.mpr ⟨worker, within, rfl⟩
    obtain ⟨laterSound, grows, knows⟩ :=
      turn.keeps ascending member sound.truthful (sound.knowing worker within)
    exact .inl ⟨rfl, sound.replace laterSound grows knows⟩
  | @stop before after worker _ number _ stopped =>
    have member : worker.task ∈ scope := sound.tasks ▸ List.mem_map.mpr ⟨worker, by simp, rfl⟩
    exact .inr ⟨_, rfl, .inr ⟨_, ⟨worker.task, member, _, stopped, rfl⟩, rfl⟩⟩
  | finish gone =>
    refine .inr ⟨_, rfl, ?_⟩
    cases noted : board.failure? with
    | none =>
      refine .inl ⟨board.queries, sound.compiles ascending gone noted, ?_⟩
      rw [Board.result, noted]
    | some failure =>
      refine .inr ⟨failure, sound.truthful.noted failure noted, ?_⟩
      rw [Board.result, noted]

theorem sound_beginning (scope : Scope) :
    Sound compiler scope (beginning scope).workers (beginning scope).board where
  tasks := by simp [beginning, Function.comp_def]
  truthful :=
    { ascending := List.Pairwise.nil
      held := by simp [beginning]
      noted := by simp [beginning]
      called := by simp [beginning] }
  knowing := by
    intro worker within
    obtain ⟨task, -, rfl⟩ := List.mem_map.mp within
    trivial

/-- A sound crew comes to the right outcome, by induction on the steps it has left at most. -/
theorem Sound.inevitable (ascending : Fields.Ascending scope) (crew : Crew)
    (under : crew.outcome? = none) (sound : Sound compiler scope crew.workers crew.board) :
    Inevitable compiler scope slots (Right compiler scope) crew := by
  induction left : crew.rank using Nat.strong_induction_on generalizing crew with
  | _ left inductionHypothesis =>
    obtain ⟨workers, board, outcome?⟩ := crew
    cases under
    refine .onward (exists_step workers board) ?_
    intro next step
    rcases sound.step ascending step with ⟨unended, nextSound⟩ | ⟨outcome, ended, right⟩
    · exact inductionHypothesis next.rank (left ▸ step.rank_lt) next unended nextSound rfl
    · exact .ended ended right

theorem Inevitable.mono {property other : Attempt (Fields Query) → Prop} {crew : Crew}
    (implies : ∀ outcome, property outcome → other outcome)
    (comes : Inevitable compiler scope slots property crew) :
    Inevitable compiler scope slots other crew := by
  induction comes with
  | ended ended holds => exact .ended ended (implies _ holds)
  | onward step _ inductionHypothesis => exact .onward step inductionHypothesis

end Soundness

theorem ne_cancellation_of_blames {compiler : Compiler Id} {scope : Scope} {failure : Failure}
    (blamed : compiler.Blames scope failure) : failure ≠ cancellation := by
  obtain ⟨task, -, reason, -, rfl⟩ := blamed
  cases reason with
  | refusal places cause => simp [Failure.within, cancellation]
  | notFinite number => simp [Failure.within, cancellation]

/-- In whatever order the crew works, and however many may work at once, it comes to an outcome.  If
every pipeline can be compiled, the outcome has the queries of all of them and no other; if not, it is
the failure of one of them with its name in front (a stop at a number has no place for a name).  It is
never the failure of a worker that gave up, and it has queries just if compiling one by one has, and
then the same. -/
theorem outcome_of_any_schedule (compiler : Compiler Id) {scope : Scope}
    (ascending : Fields.Ascending scope) (slots : Int) :
    Inevitable compiler scope slots
      (fun outcome =>
        ((∀ task ∈ scope, ∃ query, compiler.attempt scope task.2 = .ok query) →
          ∃ queries, compiler.Compiles scope scope queries ∧ outcome = .ok queries) ∧
        ((∃ task ∈ scope, ∃ failure, compiler.attempt scope task.2 = .error failure) →
          ∃ failure, compiler.Blames scope failure ∧ outcome = .error failure) ∧
        outcome ≠ .error cancellation ∧
        ∀ queries, outcome = .ok queries ↔
          Id.run (compiler.compileAll (pure ()) scope).run = .ok queries)
      (beginning scope) := by
  have comes : Inevitable compiler scope slots (Right compiler scope) (beginning scope) :=
    Sound.inevitable ascending (beginning scope) rfl (sound_beginning scope)
  refine comes.mono ?_
  rintro _ (⟨queries, compiles, rfl⟩ | ⟨failure, blamed, rfl⟩)
  · have single := Compiler.gives_compileEach.mpr compiles
    refine ⟨fun _ => ⟨queries, compiles, rfl⟩, ?_, by simp, ?_⟩
    · rintro ⟨task, member, failure, failed⟩
      obtain ⟨query, compiled⟩ := compiles.ok member
      rw [compiled] at failed
      cases failed
    · intro others
      rw [Compiler.compileAll, single]
  · have ⟨task, member, reason, failed, _⟩ := blamed
    have refused : ¬ ∃ query, compiler.attempt scope task.2 = .ok query := by simp [failed]
    refine ⟨fun fine => absurd (fine task member) refused, fun _ => ⟨failure, blamed, rfl⟩, ?_, ?_⟩
    · intro same
      exact ne_cancellation_of_blames blamed (Except.error.inj same)
    · intro queries
      refine iff_of_false (by simp) fun single => refused ?_
      exact (Compiler.gives_compileEach.mp single).ok member

/-- Of three pipelines the one in the middle is empty: two workers at a time always come to its
failure. -/
theorem outcome_of_any_schedule_empty_pipeline :
    Inevitable ⟨"", true, fun text => pure (.text text)⟩
      [("a", [.domain "d"]), ("b", []), ("c", [.domain "e"])] 2
      (fun outcome => outcome = .error (.refusal [.pipeline "b", .staging] .emptyPipeline))
      (beginning [("a", [.domain "d"]), ("b", []), ("c", [.domain "e"])]) := by
  refine (outcome_of_any_schedule _ (by decide) 2).mono ?_
  rintro outcome ⟨-, fails, -⟩
  obtain ⟨failure, ⟨task, member, reason, failed, rfl⟩, rfl⟩ := fails ⟨("b", []), by simp, _, rfl⟩
  simp only [List.mem_cons, List.not_mem_nil, or_false] at member
  rcases member with rfl | rfl | rfl
  · cases failed
  · cases failed
    rfl
  · cases failed

end Crew

end StepQuery
