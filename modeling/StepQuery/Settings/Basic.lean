import StepQuery.Failure
import StepQuery.Query.Backend
import StepQuery.Yaml.Block

/-!
The settings of a project, read strictly from a YAML file: every key is known and comes once, and
every value has the type of its key.
-/

namespace StepQuery

structure Settings where
  backend : String
  start : String
  finish : String
  pipelinesFile : String
  variablesFile : String
  columnTypesFile : String
  pretty : Bool
  simplifies : Bool
deriving DecidableEq, Repr

namespace Settings

/-- The settings of a file that says nothing. -/
def silent : Settings := ⟨"", "", "", "", "", "", false, true⟩

/-- Put the usual backend and delimiters where none are set. -/
def withDefaults (settings : Settings) : Settings :=
  let backend := if settings.backend == "" then Backend.usual.name else settings.backend
  if settings.start == "" then
    { settings with backend, start := "\x7b\x7b", finish := "\x7d\x7d" }
  else { settings with backend }

/-- The settings without a file. -/
def usual : Settings := { silent.withDefaults with pretty := true }

/-- A text; every scalar is one, and nothing leaves it empty. -/
def text? : Yaml → Option String
  | .null => some ""
  | value => value.scalarText?

/-- A truth value; nothing stands for what is given. -/
def truth? (absent : Bool) : Yaml → Option Bool
  | .null => some absent
  | .bool value => some value
  | _ => none

/-- A group of settings; nothing stands for an empty one. -/
def entries? : Yaml → Option (List (String × Yaml))
  | .null => some []
  | .map entries => some entries
  | _ => none

def readTemplate (settings : Settings) (entry : String × Yaml) : Option Settings :=
  match entry.1 with
  | "start" => (text? entry.2).map fun start => { settings with start }
  | "end" => (text? entry.2).map fun finish => { settings with finish }
  | _ => none

def readOutput (settings : Settings) (entry : String × Yaml) : Option Settings :=
  match entry.1 with
  | "pretty" => (truth? false entry.2).map fun pretty => { settings with pretty }
  | "simplify" => (truth? true entry.2).map fun simplifies => { settings with simplifies }
  | _ => none

def readEntry (settings : Settings) (entry : String × Yaml) : Option Settings :=
  match entry.1 with
  | "backend" => (text? entry.2).map fun backend => { settings with backend }
  | "template" => do (← entries? entry.2).foldlM readTemplate settings
  | "pipelines_file" => (text? entry.2).map fun pipelinesFile => { settings with pipelinesFile }
  | "variables_file" => (text? entry.2).map fun variablesFile => { settings with variablesFile }
  | "column_types_file" =>
    (text? entry.2).map fun columnTypesFile => { settings with columnTypesFile }
  | "output" => do (← entries? entry.2).foldlM readOutput settings
  | _ => none

/-- The settings that a YAML document writes down; `none` when it is no such document. -/
def ofYaml? (document : Yaml) : Option Settings := do
  (← entries? document).foldlM readEntry silent

/-- Refuse an unknown backend and delimiters that cannot work. -/
def validate (settings : Settings) : Attempt Unit :=
  if settings.backend != "" && (Backend.ofName? settings.backend).isNone then
    Attempt.fail (.invalidBackendSetting settings.backend)
  else if (settings.start == "") != (settings.finish == "") then
    Attempt.fail .unpairedDelimiters
  else if settings.start != "" && settings.start == settings.finish then
    Attempt.fail (.equalDelimiters settings.start)
  else .ok ()

def parse (text : List Char) : Attempt Settings :=
  match (Yaml.parse? text).bind ofYaml? with
  | none => Attempt.inside .parsingSettings (Attempt.fail .external)
  | some settings => do
    Attempt.inside .validatingSettings settings.validate
    return settings.withDefaults

end Settings

end StepQuery
