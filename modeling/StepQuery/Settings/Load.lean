import StepQuery.Settings.Basic
import StepQuery.Settings.Environment
import StepQuery.Surroundings

/-!
Loading the settings.  The environment file of the working directory is read first, so that the
paths in the settings may mention what it assigns; what the environment held before stays.
-/

namespace StepQuery.Settings

variable {m : Type → Type} [Monad m]

/-- The file whose assignments join the environment. -/
def environmentFile : String := ".env"

/-- The assignments made so far together with those of the environment file. -/
def loadEnvironment (surroundings : Surroundings m) (assigned : Fields String) :
    m (Attempt (Fields String)) := do
  let failed : Attempt (Fields String) :=
    Attempt.inside .environmentFiles (Attempt.inside .environmentFile (Attempt.fail .external))
  match ← surroundings.entry environmentFile with
  | .missing => return .ok assigned
  | .unreadable => return failed
  | .file content =>
    match Environment.parse? content with
    | none => return failed
    | some found => return .ok (Environment.add assigned found)

/-- The value of a variable: that of the environment, else the one assigned, else nothing. -/
def lookup (surroundings : Surroundings m) (assigned : Fields String) (name : String) :
    m String := do
  match ← surroundings.environment name with
  | some value => return value
  | none => return (Fields.get? assigned name).getD ""

/-- Replace the variables that the paths of files mention. -/
def expandPaths (lookup : String → m String) (settings : Settings) : m Settings := do
  let pipelinesFile ← Environment.expand lookup settings.pipelinesFile
  let variablesFile ← Environment.expand lookup settings.variablesFile
  let columnTypesFile ← Environment.expand lookup settings.columnTypesFile
  return { settings with pipelinesFile, variablesFile, columnTypesFile }

/-- Read the settings at a path; without a file there they are the usual ones. -/
def readFile (surroundings : Surroundings m) (path : String) : m (Attempt Settings) := do
  match ← surroundings.entry path with
  | .missing => return .ok usual
  | .unreadable => return Attempt.inside .readingSettings (Attempt.fail .external)
  | .file content => return parse content

/-- Load the settings at a path, with the assignments made so far.  The assignments of the
environment file count even when the settings cannot be read. -/
def load (surroundings : Surroundings m) (assigned : Fields String) (path : String) :
    m (Fields String × Attempt Settings) := do
  match ← loadEnvironment surroundings assigned with
  | .error failure => return (assigned, .error failure)
  | .ok assigned =>
    match ← readFile surroundings path with
    | .error failure => return (assigned, .error failure)
    | .ok settings =>
      let expanded ← expandPaths (lookup surroundings assigned) settings
      return (assigned, .ok expanded)

end StepQuery.Settings
