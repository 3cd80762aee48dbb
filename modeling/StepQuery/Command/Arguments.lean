import StepQuery.Surroundings

/-!
Command lines.  A command line names a task and sets flags; flags that belong to every task may
stand anywhere, the others only behind the name of their task.  A flag that wants a value takes the
rest of its word or the next word, and words after a double dash are never flags.
-/

namespace StepQuery

inductive Verb where
  | compile
  | dereference
  | human
  | tree
  | version
deriving DecidableEq, Repr

inductive Flag where
  | config
  | verbose
  | quiet
  | pipelines
  | variablesFile
  | assignment
  | name
  | all
  | backend
  | compact
  | dependencies
  | types
deriving DecidableEq, Repr

namespace Flag

def long : Flag → String
  | .config => "config"
  | .verbose => "verbose"
  | .quiet => "quiet"
  | .pipelines => "pipelines"
  | .variablesFile => "vars"
  | .assignment => "var"
  | .name => "name"
  | .all => "all"
  | .backend => "backend"
  | .compact => "compact"
  | .dependencies => "deps"
  | .types => "types"

def short? : Flag → Option Char
  | .verbose => some 'v'
  | .quiet => some 'q'
  | .pipelines => some 'p'
  | .assignment => some 'V'
  | .name => some 'n'
  | _ => none

/-- Whether a flag is on or off, and wants no value. -/
def isSwitch : Flag → Bool
  | .verbose | .quiet | .all | .compact | .dependencies => true
  | _ => false

def common : List Flag := [.config, .verbose, .quiet]

end Flag

namespace Verb

def word : Verb → String
  | .compile => "compile"
  | .dereference => "dereference"
  | .human => "human"
  | .tree => "tree"
  | .version => "version"

def ofWord? (word : String) : Option Verb :=
  [.compile, .dereference, .human, .tree, .version].find? fun verb : Verb => verb.word == word

def flags : Verb → List Flag
  | .compile =>
    [.pipelines, .variablesFile, .assignment, .name, .all, .backend, .compact]
  | .dereference => [.pipelines, .dependencies, .compact]
  | .human => []
  | .tree => [.types, .compact]
  | .version => []

def takesInput : Verb → Bool
  | .version => false
  | _ => true

end Verb

/-- What a command line has said so far. -/
structure Options where
  verb : Option Verb := none
  input : Option String := none
  config : String := "pipequery.yaml"
  verbose : Bool := false
  quiet : Bool := false
  pipelines : String := ""
  variablesFile : String := ""
  assignments : List String := []
  name : String := ""
  all : Bool := false
  backend : String := ""
  compact : Bool := false
  dependencies : Bool := false
  types : String := ""

namespace Options

/-- The flags that may come next. -/
def known (options : Options) : List Flag :=
  Flag.common ++ match options.verb with
    | some verb => verb.flags
    | none => []

/-- Whether a word that stands alone may be a value: it does not look like a flag. -/
def isValue (word : List Char) : Bool := word.head? != some '-' || word == ['-']

/-- The parts of a list between its commas.  A backslash protects a comma, and an empty part at the
end does not count. -/
def listParts : (part : List Char) → List Char → List (List Char)
  | part, [] => if part.isEmpty then [] else [part]
  | part, '\\' :: ',' :: rest => listParts (part ++ [',']) rest
  | part, '\\' :: character :: rest => listParts (part ++ ['\\', character]) rest
  | part, ',' :: rest => part :: listParts [] rest
  | part, character :: rest => listParts (part ++ [character]) rest

def switch (options : Options) (flag : Flag) (held : Bool) : Options :=
  match flag with
  | .verbose => { options with verbose := held }
  | .quiet => { options with quiet := held }
  | .all => { options with all := held }
  | .compact => { options with compact := held }
  | .dependencies => { options with dependencies := held }
  | _ => options

/-- Give a flag its value.  A value that is a word of its own must not look like a flag. -/
def store (directory : String) (options : Options) (flag : Flag) (alone : Bool)
    (value : List Char) : Option Options :=
  let text := String.ofList value
  let path := Path.absolute directory text
  if flag == .assignment then
    let parts := listParts [] value
    if alone && !parts.all isValue then none
    else some { options with assignments := options.assignments ++ parts.map String.ofList }
  else if alone && !isValue value then none
  else match flag with
    | .config => some { options with config := text }
    | .pipelines => some { options with pipelines := path }
    | .variablesFile => some { options with variablesFile := path }
    | .name => some { options with name := text }
    | .backend => some { options with backend := text }
    | .types => some { options with types := path }
    | _ => none

def truth? (word : List Char) : Option Bool :=
  let lowered := Text.lower (String.ofList word)
  if ["true", "1", "yes"].contains lowered then some true
  else if ["false", "0", "no"].contains lowered then some false
  else none

/-- A word that is no flag: the name of the task, or the file it works on. -/
def positional (directory : String) (options : Options) (word : String) : Option Options :=
  match options.verb with
  | none => (Verb.ofWord? word).map fun verb => { options with verb := some verb }
  | some verb =>
    if verb.takesInput && options.input.isNone then
      some { options with input := some (Path.absolute directory word) }
    else none

/-- Flags of one letter that follow each other in a word.  The last of them may be left without
its value. -/
def letters (directory : String) : Options → List Char → Option (Options × Option Flag)
  | options, [] => some (options, none)
  | options, letter :: rest => do
    let flag ← options.known.find? fun flag => flag.short? == some letter
    if flag.isSwitch then letters directory (options.switch flag true) rest
    else if rest.isEmpty then return (options, some flag)
    else return (← store directory options flag false rest, none)

/-- A flag written out, after its two dashes, with the value that its word holds. -/
def longFlag (directory : String) (options : Options) (word : List Char) :
    Option (Options × Option Flag) := do
  let name := String.ofList (word.takeWhile (· != '='))
  let flag ← options.known.find? fun flag => flag.long == name
  match word.dropWhile (· != '='), flag.isSwitch with
  | [], true => return (options.switch flag true, none)
  | [], false => return (options, some flag)
  | _ :: value, true => return (options.switch flag (← truth? value), none)
  | _ :: value, false => return (← store directory options flag false value, none)

def flagWord (directory : String) (options : Options) (word : List Char) :
    Option (Options × Option Flag) :=
  match word with
  | '-' :: '-' :: rest => longFlag directory options rest
  | _ :: rest => letters directory options rest
  | [] => none

/-- Read words one after the other.  A flag may wait for its value, and after a double dash no word
is a flag. -/
def readWords (directory : String) : (waiting : Option Flag) → (literal : Bool) → Options →
    List String → Option Options
  | none, _, options, [] => some options
  | some _, _, _, [] => none
  | some flag, literal, options, word :: rest => do
    readWords directory none literal (← store directory options flag true word.toList) rest
  | none, true, options, word :: rest => do
    readWords directory none true (← options.positional directory word) rest
  | none, false, options, word :: rest =>
    if word == "--" then readWords directory none true options rest
    else if isValue word.toList then do
      readWords directory none false (← options.positional directory word) rest
    else do
      let (options, waiting) ← options.flagWord directory word.toList
      readWords directory waiting false options rest

end Options

/-- What the compile task is asked to do. -/
structure CompileTask where
  input : Option String
  pipelines : String
  variablesFile : String
  assignments : List String
  /-- The pipeline of the scope to compile; none is meant by an empty name. -/
  name : String
  all : Bool
  backend : String
  compact : Bool

inductive Task where
  | compile (task : CompileTask)
  | dereference (input pipelines : String) (dependencies compact : Bool)
  | human (input : String)
  | tree (input types : String) (compact : Bool)
  | version

/-- A command line that makes sense. -/
structure Invocation where
  config : String
  verbose : Bool
  quiet : Bool
  task : Task

namespace Invocation

def task? (options : Options) : Option Task := do
  match ← options.verb with
  | .compile =>
    return .compile ⟨options.input, options.pipelines, options.variablesFile, options.assignments,
      options.name, options.all, options.backend, options.compact⟩
  | .dereference =>
    return .dereference (← options.input) options.pipelines options.dependencies options.compact
  | .human => return .human (← options.input)
  | .tree => return .tree (← options.input) options.types options.compact
  | .version => return .version

/-- What a command line asks for; `none` when it cannot be understood. -/
def ofWords? (directory : String) (words : List String) : Option Invocation := do
  let options ← Options.readWords directory none false { } words
  return ⟨options.config, options.verbose, options.quiet, ← task? options⟩

end Invocation

end StepQuery
