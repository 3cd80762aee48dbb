import StepQuery.Command.Arguments
import StepQuery.Compilation
import StepQuery.Condition.TreeDocument
import StepQuery.Document
import StepQuery.Expression.Evaluation
import StepQuery.Json.Printer
import StepQuery.Pipeline.Write
import StepQuery.Query.ExtendedJson
import StepQuery.Reference.Dependencies
import StepQuery.Settings.Load
import StepQuery.Summary
import StepQuery.Variables

/-!
Running tasks.  A task reads files, writes output and says on the side what it did; what it has
written before it fails stays written.
-/

namespace StepQuery

inductive Output where
  /-- A query, in extended JSON. -/
  | query (json : Json) (pretty : Bool)
  | document (json : Json) (pretty : Bool)
  | line (content : String)

namespace Output

/-- A piece of output as it is printed, without the end of its last line.  Queries keep the
characters that mean something in markup. -/
def text : Output → String
  | .query json true => Json.pretty .kept 0 json
  | .query json false => Json.compact .kept json
  | .document json true => Json.pretty .escaped 0 json
  | .document json false => Json.compact .escaped json
  | .line content => content

end Output

structure Transcript where
  /-- The variables assigned by environment files. -/
  assigned : Fields String
  output : List Output
  status : List String

abbrev Running (m : Type → Type) := ExceptT Failure (StateT Transcript m)

namespace Running

variable {m : Type → Type} [Monad m]

def attempt {α : Type} (result : Attempt α) : Running m α := ExceptT.mk (pure result)

def perform {α : Type} (action : m α) : Running m α :=
  ExceptT.lift (StateT.lift action)

def write (output : Output) : Running m Unit :=
  modify fun transcript => { transcript with output := transcript.output ++ [output] }

/-- Say what was done, unless that is not wanted. -/
def say (invocation : Invocation) (status : String) : Running m Unit :=
  if invocation.quiet then return ()
  else modify fun transcript => { transcript with status := transcript.status ++ [status] }

def readFile (surroundings : Surroundings m) (path : String) : Running m (List Char) := do
  match ← perform (surroundings.entry path) with
  | .missing => attempt (Attempt.fail (.missingFile path))
  | .unreadable => attempt (Attempt.inside (.reading path) (Attempt.fail .external))
  | .file content => return content

def loadSettings (surroundings : Surroundings m) (invocation : Invocation) :
    Running m Settings := do
  let assigned := (← get).assigned
  let (assigned, settings) ← perform (Settings.load surroundings assigned invocation.config)
  modify fun transcript => { transcript with assigned }
  attempt (Attempt.inside .settings settings)

def readPipeline (surroundings : Surroundings m) (path : String) : Running m Pipeline := do
  let content ← readFile surroundings path
  attempt (Attempt.inside (.parsing "pipeline" path) (Pipeline.parse content))

/-- Named pipelines; there are none without a path. -/
def readScope (surroundings : Surroundings m) (path : String) : Running m Scope := do
  if path == "" then return []
  else
    let content ← readFile surroundings path
    attempt (Attempt.inside (.parsing "pipelines" path) (Scope.parse content))

/-- The variables of a file, if there is one, and then those assigned by hand. -/
def readVariables (surroundings : Surroundings m) (path : String) (assignments : List String) :
    Running m (Fields Value) := do
  let read ← if path == "" then pure [] else do
    let content ← readFile surroundings path
    attempt (Attempt.inside (.parsing "variables" path) (Variables.parse content))
  attempt (Variables.assignAll read assignments)

/-- The types of columns that a YAML document tells; `none` when it is no such document. -/
def columnTypes? (document : Yaml) : Option (Fields ColumnType) := do
  let entries ← Settings.entries? document
  let types ← entries.mapM fun entry => do
    return (entry.1, ColumnType.ofName (← Settings.text? entry.2))
  return Fields.ofList types

/-- The types of columns; there are none without a path. -/
def readColumnTypes (surroundings : Surroundings m) (path : String) :
    Running m (Fields ColumnType) := do
  if path == "" then return []
  else
    let content ← readFile surroundings path
    match (Yaml.parse? content).bind columnTypes? with
    | some types => return types
    | none => attempt (Attempt.inside (.parsing "column types" path) (Attempt.fail .external))

def firstNonempty (first second : String) : String := if first == "" then second else first

def writeDocument (what : String) (document : Option Json) (pretty : Bool) : Running m Unit :=
  match document with
  | some json => write (.document json pretty)
  | none => attempt (Attempt.inside (.encoding what) (Attempt.fail .wrongType))

/-- Write a query if it can be written in extended JSON. -/
def writeQuery (what : String) (term : Term) (pretty : Bool) : Running m Unit :=
  match term.extended? with
  | some json => write (.query json pretty)
  | none => attempt (Attempt.inside (.encoding what) (Attempt.fail .external))

/-- The pipeline that the compile task is about, and what it is called. -/
def selectPipeline (surroundings : Surroundings m) (task : CompileTask) (scope : Scope) :
    Running m (Pipeline × String) := do
  if task.name != "" then
    match Fields.get? scope task.name with
    | some pipeline => return (pipeline, "pipeline '" ++ task.name ++ "'")
    | none => attempt (Attempt.fail (.unknownPipeline task.name))
  else
    match task.input with
    | some path => return (← readPipeline surroundings path, path)
    | none => attempt (Attempt.fail .noInput)

def compiler (settings : Settings) (backend : String) (values : Fields Value) : Compiler Id where
  backend := backend
  simplifies := settings.simplifies
  render := fun template => ExceptT.mk (pure (Template.render
    (Delimiters.ofTexts settings.start settings.finish) (Expression.evaluate? values) template))

def compileAll (invocation : Invocation) (compiler : Compiler Id) (scope : Scope)
    (pretty : Bool) : Running m Unit := do
  if scope.isEmpty then attempt (Attempt.fail .noPipelines)
  else
    let queries ← attempt (Id.run (compiler.compileAll (pure ()) scope).run)
    writeQuery "queries" (.ordered (queries.map fun entry => (entry.1, entry.2.toTerm))) pretty
    say invocation s!"Compiled {queries.length} pipelines"

def compile (surroundings : Surroundings m) (invocation : Invocation) (task : CompileTask) :
    Running m Unit := do
  let settings ← loadSettings surroundings invocation
  let backend := firstNonempty task.backend settings.backend
  if (Backend.ofName? backend).isNone then attempt (Attempt.fail (.unknownBackend backend))
  let scope ← readScope surroundings (firstNonempty task.pipelines settings.pipelinesFile)
  let values ← readVariables surroundings
    (firstNonempty task.variablesFile settings.variablesFile) task.assignments
  let compiler := compiler settings backend values
  let pretty := settings.pretty && !task.compact
  if task.all then compileAll invocation compiler scope pretty
  else
    let (pipeline, label) ← selectPipeline surroundings task scope
    let query ← attempt
      (Attempt.inside (.compiling label) (Id.run (compiler.compile scope pipeline).run))
    writeQuery "query" query.toTerm pretty
    say invocation s!"Compiled {label} for {backend} ({query.stages.length} stages)"

def dereference (surroundings : Surroundings m) (invocation : Invocation)
    (input pipelines : String) (dependencies compact : Bool) : Running m Unit := do
  let settings ← loadSettings surroundings invocation
  let pipeline ← readPipeline surroundings input
  let scope ← readScope surroundings (firstNonempty pipelines settings.pipelinesFile)
  if dependencies then
    let names ← attempt (pipeline.dependencies scope)
    for name in names do write (.line name)
    say invocation s!"{input} references {names.length} pipelines"
  else
    let resolved ← attempt (pipeline.resolve scope)
    writeDocument "pipeline" (Pipeline.toJson? resolved) (settings.pretty && !compact)
    say invocation
      s!"Dereferenced {input}: {pipeline.length} steps -> {resolved.length} steps"

/-- The sentences about the conditional steps of a pipeline, each with its place. -/
def summaries (delimiters : Delimiters) : (index : Nat) → Pipeline → List String
  | _, [] => []
  | index, .transform (.ifThenElse newColumn branch) :: rest =>
    s!"#{index} {newColumn}: {branch.summary delimiters}" ::
      summaries delimiters (index + 1) rest
  | index, _ :: rest => summaries delimiters (index + 1) rest

def human (surroundings : Surroundings m) (invocation : Invocation) (input : String) :
    Running m Unit := do
  let settings ← loadSettings surroundings invocation
  let pipeline ← readPipeline surroundings input
  match summaries (Delimiters.ofTexts settings.start settings.finish) 0 pipeline with
  | [] => say invocation s!"No ifthenelse step in {input}"
  | lines => for line in lines do write (.line line)

/-- The conditions of the filter steps of a pipeline, each with its place. -/
def filters : (index : Nat) → Pipeline → List (Nat × Condition)
  | _, [] => []
  | index, .transform (.filter .absent) :: rest => filters (index + 1) rest
  | index, .transform (.filter condition) :: rest => (index, condition) :: filters (index + 1) rest
  | index, _ :: rest => filters (index + 1) rest

/-- The document of one editable tree, with the place of its step. -/
def treeJson? (entry : Nat × Group) : Option Json := do
  return .object [("step", .number (Decimal.integerText entry.1)), ("tree", ← entry.2.toJson?)]

def tree (surroundings : Surroundings m) (invocation : Invocation) (input types : String)
    (compact : Bool) : Running m Unit := do
  let settings ← loadSettings surroundings invocation
  let pipeline ← readPipeline surroundings input
  let types ← readColumnTypes surroundings (firstNonempty types settings.columnTypesFile)
  let groups := (filters 0 pipeline).map fun (index, condition) =>
    (index, Group.ofCondition (condition.castValues types))
  for (index, group) in groups do
    match group.validate with
    | .ok () => pure ()
    | .error failure => say invocation s!"Step #{index}: {failure.message}"
  writeDocument "trees" ((groups.mapM treeJson?).map .array) (settings.pretty && !compact)

def versionLine : String := "pipequery v0.1.0"

end Running

namespace Invocation

variable {m : Type → Type} [Monad m]

def run (surroundings : Surroundings m) (invocation : Invocation) : Running m Unit :=
  match invocation.task with
  | .compile task => Running.compile surroundings invocation task
  | .dereference input pipelines dependencies compact =>
    Running.dereference surroundings invocation input pipelines dependencies compact
  | .human input => Running.human surroundings invocation input
  | .tree input types compact => Running.tree surroundings invocation input types compact
  | .version => Running.write (.line Running.versionLine)

end Invocation

end StepQuery
