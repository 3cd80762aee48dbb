import StepQuery.Value

/-!
Failures as causes.  A failure is a cause together with the places it passed on the way out; the
wording of both is fixed here and nowhere else.  Some causes and places belong to a kind, and a
failure has every kind met along its path.
-/

namespace StepQuery

/-- The kinds of failure a caller may want to tell apart. -/
inductive Kind where
  | cyclicReference
  | unsupportedStep
  | invalidStep
  | invalidCondition
  | invalidReference
  | malformedTree
  | treeTooDeep
  | templateEvaluation
  | invalidNumber
  | invalidValue
  | invalidPipeline
  | unsupportedOperator
  | unsupportedDatePart
  | unsupportedFeature
  | invalidFormula
  | invalidSettings
  | missingFile
  | invalidVariable
  | unknownPipeline
  | missingInput
deriving DecidableEq, Repr

namespace Kind

/-- The kinds in the order in which they are reported. -/
def all : List Kind :=
  [.cyclicReference, .unsupportedStep, .invalidStep, .invalidCondition, .invalidReference,
    .malformedTree, .treeTooDeep, .templateEvaluation, .invalidNumber, .invalidValue,
    .invalidPipeline, .unsupportedOperator, .unsupportedDatePart, .unsupportedFeature,
    .invalidFormula, .invalidSettings, .missingFile, .invalidVariable, .unknownPipeline,
    .missingInput]

def text : Kind → String
  | .cyclicReference => "cyclic pipeline reference"
  | .unsupportedStep => "unsupported step"
  | .invalidStep => "invalid step"
  | .invalidCondition => "invalid condition"
  | .invalidReference => "invalid pipeline reference"
  | .malformedTree => "malformed condition tree"
  | .treeTooDeep => "condition tree is too deep for the editor"
  | .templateEvaluation => "template evaluation failed"
  | .invalidNumber => "invalid number"
  | .invalidValue => "invalid value"
  | .invalidPipeline => "invalid pipeline"
  | .unsupportedOperator => "unsupported operator"
  | .unsupportedDatePart => "unsupported date part"
  | .unsupportedFeature => "feature not supported by backend"
  | .invalidFormula => "invalid formula"
  | .invalidSettings => "configuration validation failed"
  | .missingFile => "input file does not exist"
  | .invalidVariable => "invalid variable, expected key=value"
  | .unknownPipeline => "pipeline not found in scope file"
  | .missingInput => "missing input"

end Kind

inductive Cause where
  /-- A document value does not fit where it stands. -/
  | wrongType
  | malformedJson
  /-- Something outside this library failed; its own words are not kept. -/
  | external
  | unknownField (name : String)
  | missingStepName
  | stepNameNotText
  | unsupportedStep (name : String)
  | conflictingCombinators
  | nullCondition (index : Nat)
  | absentCondition
  | notReference (written : String)
  | absentTreeCondition
  | operatorless (conditions groups : Nat)
  | unknownTreeOperator (name : String)
  | tooDeep (depth most : Nat)
  | cycle (path : List String)
  | template (expression : String)
  | renderFailed
  | notNumber (text : String)
  | notNumeric (typeName : String)
  | notInteger (number : Float)
  | badInteger (text : String)
  | badNumber (text : String)
  | badBoolean (text : String)
  | badDate (text : String)
  | emptyFormula
  | formulaSyntax (problem : String) (position : Nat)
  | emptyPipeline
  | missingDomain (first : String)
  | misplacedDomain (name : String)
  | unknownBackend (name : String)
  | featureMissing (what backend : String)
  | patternInExpression (operator : String)
  | unsupportedOperator (name : String)
  | listWanted (operator column : String)
  | joinWithoutPairs
  | unknownJoin (name : String)
  | dateColumnCount (parts columns : Nat)
  | unsupportedDatePart (name : String)
  | columnCount (columns newColumns : Nat)
  | unknownAggregation (name : String)
  | zeroIndex
  | nothingToSum
  | unknownDataType (name : String)
  | customStage (index : Nat)
  | customQuery
  | invalidBackendSetting (name : String)
  | unpairedDelimiters
  | equalDelimiters (delimiter : String)
  | missingFile (path : String)
  | invalidVariable (assignment : String)
  | unknownPipeline (name : String)
  | noInput
  | noPipelines
  | cancelled
deriving Repr

namespace Cause

def kind? : Cause → Option Kind
  | .wrongType | .malformedJson | .external | .unknownField _ | .renderFailed | .cancelled => none
  | .missingStepName | .stepNameNotText => some .invalidStep
  | .unsupportedStep _ => some .unsupportedStep
  | .conflictingCombinators | .nullCondition _ | .absentCondition | .listWanted _ _ =>
    some .invalidCondition
  | .notReference _ => some .invalidReference
  | .absentTreeCondition | .operatorless _ _ | .unknownTreeOperator _ => some .malformedTree
  | .tooDeep _ _ => some .treeTooDeep
  | .cycle _ => some .cyclicReference
  | .template _ => some .templateEvaluation
  | .notNumber _ | .notNumeric _ | .notInteger _ => some .invalidNumber
  | .badInteger _ | .badNumber _ | .badBoolean _ | .badDate _ => some .invalidValue
  | .emptyFormula | .formulaSyntax _ _ => some .invalidFormula
  | .emptyPipeline | .missingDomain _ | .misplacedDomain _ => some .invalidPipeline
  | .unknownBackend _ | .featureMissing _ _ | .patternInExpression _ => some .unsupportedFeature
  | .unsupportedOperator _ => some .unsupportedOperator
  | .joinWithoutPairs | .unknownJoin _ | .dateColumnCount _ _ | .columnCount _ _
  | .unknownAggregation _ | .zeroIndex | .nothingToSum | .unknownDataType _ | .customStage _
  | .customQuery => some .invalidStep
  | .unsupportedDatePart _ => some .unsupportedDatePart
  | .invalidBackendSetting _ | .unpairedDelimiters | .equalDelimiters _ => some .invalidSettings
  | .missingFile _ => some .missingFile
  | .invalidVariable _ => some .invalidVariable
  | .unknownPipeline _ => some .unknownPipeline
  | .noInput | .noPipelines => some .missingInput

def single (text : String) : String := "'" ++ text ++ "'"

/-- What is said about a cause after its kind. -/
def detail : Cause → String
  | .wrongType => "<json type>"
  | .malformedJson => "<json syntax>"
  | .external => "<detail>"
  | .unknownField name => "json: unknown field " ++ Text.quoted name
  | .missingStepName => "missing 'name' field"
  | .stepNameNotText => "'name' must be a string"
  | .unsupportedStep name => single name
  | .conflictingCombinators => "condition cannot combine 'and' and 'or'"
  | .nullCondition index => s!"condition #{index} is null"
  | .absentCondition => "<nil>"
  | .notReference written => "expected a pipeline name or a list of steps, got " ++ written
  | .absentTreeCondition => "nil condition"
  | .operatorless conditions groups =>
    "a tree without operator needs exactly one condition and no group, got " ++
      s!"{conditions} conditions and {groups} groups"
  | .unknownTreeOperator name => "unknown operator " ++ single name
  | .tooDeep depth most => s!"depth {depth} exceeds {most}"
  | .cycle path => String.intercalate " -> " path
  | .template expression => single expression ++ ": <detail>"
  | .renderFailed => "render failed"
  | .notNumber text => single text
  | .notNumeric typeName => typeName ++ " is not numeric"
  | .notInteger number => NumberStyle.plain.float number ++ " is not an integer"
  | .badInteger text => single text ++ " is not an integer"
  | .badNumber text => single text ++ " is not a number"
  | .badBoolean text => single text ++ " is not a boolean"
  | .badDate text => single text ++ " is not a date"
  | .emptyFormula => "empty formula"
  | .formulaSyntax problem position => problem ++ s!" at position {position}"
  | .emptyPipeline => "empty pipeline"
  | .missingDomain first => "pipeline starts with " ++ single first ++ " instead of a domain step"
  | .misplacedDomain name => "domain step " ++ single name ++ " is only allowed first"
  | .unknownBackend name => "unknown backend " ++ single name
  | .featureMissing what backend => what ++ " is not available on " ++ backend
  | .patternInExpression operator => single operator ++ " in expressions needs $regexMatch"
  | .unsupportedOperator name => single name
  | .listWanted operator column =>
    single operator ++ " on " ++ single column ++ " needs a list value"
  | .joinWithoutPairs => "join needs at least one column pair"
  | .unknownJoin name => "unknown join type " ++ single name
  | .dateColumnCount parts columns => s!"{parts} date parts for {columns} new columns"
  | .unsupportedDatePart name => single name
  | .columnCount columns newColumns => s!"{columns} columns for {newColumns} new columns"
  | .unknownAggregation name => "unknown aggregation function " ++ single name
  | .zeroIndex => "substring indexes are 1-based"
  | .nothingToSum => "nothing to sum"
  | .unknownDataType name => "unknown data type " ++ single name
  | .customStage index => s!"custom stage #{index} is not an object"
  | .customQuery => "custom query must be an object or a list of objects"
  | .invalidBackendSetting name =>
    "invalid backend " ++ single name ++ ": must be one of mongo36, mongo40, mongo42, mongo50"
  | .unpairedDelimiters => "template.start and template.end must be set together"
  | .equalDelimiters delimiter =>
    "template.start and template.end must differ, got " ++ single delimiter
  | .missingFile path => path
  | .invalidVariable assignment => single assignment
  | .unknownPipeline name => single name
  | .noInput => "give a pipeline file, --name or --all"
  | .noPipelines => "--all needs a pipelines file"
  | .cancelled => "context canceled"

end Cause

/-- A place that a failure passes on its way out. -/
inductive Place where
  /-- A failure seen as one of the given kind. -/
  | seenAs (kind : Kind)
  | step (index : Nat)
  | stepOf (index : Nat) (name : String)
  | body (name : String)
  | stepList
  | yaml
  | condition (index : Nat)
  | conditionOn (column : String)
  | branchIf
  | branchThen
  | branchElse
  | group (index : Nat)
  | appendSource (step source : Nat)
  | joinSource (step : Nat)
  | replacement (index : Nat)
  | limit
  | appended (index : Nat)
  | rightPipeline
  | resolving
  | rendering
  | staging
  | pipeline (name : String)
  | parsing (what path : String)
  | reading (path : String)
  | readingSettings
  | parsingSettings
  | validatingSettings
  | environmentFiles
  | environmentFile
  | settings
  | compiling (label : String)
  | encoding (what : String)
deriving Repr

namespace Place

def kind? : Place → Option Kind
  | .seenAs kind => some kind
  | _ => none

def text : Place → String
  | .seenAs kind => kind.text
  | .step index => s!"step #{index}"
  | .stepOf index name => s!"step #{index} ({name})"
  | .body name => name ++ " step"
  | .stepList => "pipeline must be a list of steps"
  | .yaml => "failed to parse YAML"
  | .condition index => s!"condition #{index}"
  | .conditionOn column => "condition on '" ++ column ++ "'"
  | .branchIf => "if"
  | .branchThen => "then"
  | .branchElse => "else"
  | .group index => s!"group #{index}"
  | .appendSource index source => s!"step #{index} append pipeline #{source}"
  | .joinSource index => s!"step #{index} join"
  | .replacement index => s!"to_replace #{index}"
  | .limit => "limit"
  | .appended index => s!"pipeline #{index}"
  | .rightPipeline => "right pipeline"
  | .resolving => "dereference"
  | .rendering => "interpolate"
  | .staging => "translate"
  | .pipeline name => "pipeline '" ++ name ++ "'"
  | .parsing what path => "failed to parse " ++ what ++ " " ++ path
  | .reading path => "failed to read " ++ path
  | .readingSettings => "failed to read config file"
  | .parsingSettings => "failed to parse config file"
  | .validatingSettings => "configuration validation failed"
  | .environmentFiles => "failed to load environment files"
  | .environmentFile => "failed to load .env file"
  | .settings => "failed to load config"
  | .compiling label => "failed to compile " ++ label
  | .encoding what => "failed to encode " ++ what

end Place

/-- A failed computation: a refusal with its places, outermost first, or a number without a decimal
form, which stops everything at once. -/
inductive Failure where
  | refusal (places : List Place) (cause : Cause)
  | notFinite (number : Float)
deriving Repr

namespace Failure

/-- Note that a failure passed a place. -/
def within (place : Place) : Failure → Failure
  | .refusal places cause => .refusal (place :: places) cause
  | .notFinite number => .notFinite number

def causeText (cause : Cause) : List String :=
  match cause.kind? with
  | some kind => [kind.text, cause.detail]
  | none => [cause.detail]

/-- The whole text: every place and then the cause. -/
def message : Failure → String
  | .refusal places cause => String.intercalate ": " (places.map Place.text ++ causeText cause)
  | .notFinite number => "Cannot create a Decimal from " ++ NumberStyle.plain.float number

/-- The kinds a failure has, in the order of reporting. -/
def kinds : Failure → List Kind
  | .refusal places cause =>
    Kind.all.filter fun kind =>
      cause.kind? == some kind || places.any fun place => place.kind? == some kind
  | .notFinite _ => []

end Failure

abbrev Attempt := Except Failure

namespace Attempt

def fail {α : Type} (cause : Cause) : Attempt α := .error (.refusal [] cause)

def inside {α : Type} (place : Place) (attempt : Attempt α) : Attempt α :=
  attempt.mapError (Failure.within place)

end Attempt

end StepQuery
