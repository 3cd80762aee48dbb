import StepQuery.Pipeline.Read
import StepQuery.Yaml.Block
import StepQuery.Json.Reader

/-!
Documents as text.  A text that looks like a JSON list or object and is valid JSON is taken as such;
every other text is taken as YAML, whose content is carried over to JSON.
-/

namespace StepQuery

namespace Document

def looksLikeJson (text : List Char) : Bool := text.head? == some '[' || text.head? == some '\x7b'

/-- The JSON document of a text taken as YAML; the inner `none` is content that JSON cannot carry. -/
def ofYaml (text : List Char) : Attempt (Option Json) :=
  match Yaml.parse? text with
  | some content => .ok content.toJson?
  | none => Attempt.inside (.seenAs .invalidStep) (Attempt.inside .yaml (Attempt.fail .external))

def read (text : List Char) : Attempt (Option Json) :=
  let trimmed := Text.trim text
  if looksLikeJson trimmed then
    match Json.parse trimmed with
    | .ok json => .ok (some json)
    | .error _ => ofYaml text
  else ofYaml text

/-- Read a text that has to be JSON. -/
def readJson (text : List Char) : Attempt Json :=
  match Json.parse text with
  | .ok json => .ok json
  | .error .unexpected => Attempt.fail .malformedJson
  | .error .ended => Attempt.fail .external

end Document

/-- Read a pipeline written in JSON or YAML. -/
def Pipeline.parse (text : List Char) : Attempt Pipeline := do
  match ← Document.read text with
  | some json => Pipeline.ofJson json
  | none => Attempt.fail .malformedJson

/-- Read named pipelines written in JSON or YAML. -/
def Scope.parse (text : List Char) : Attempt Scope := do
  match ← Document.read text with
  | some json => Scope.ofJson json
  | none => Attempt.fail .malformedJson

/-- Read a condition written in JSON or YAML. -/
def Condition.parse (text : List Char) : Attempt Condition := do
  match ← Document.read text with
  | some json => Condition.ofJson json
  | none => Attempt.inside (.seenAs .invalidCondition) (Attempt.fail .malformedJson)

end StepQuery
