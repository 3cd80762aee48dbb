import StepQuery.Casting
import StepQuery.Yaml.Block

/-!
The variables of templates: read from a document and assigned one by one.  A number without point or
exponent is a whole number.
-/

namespace StepQuery.Variables

mutual

/-- The value of a document, its numbers taken for what their literals look like. -/
def value : Json → Value
  | .null => .null
  | .bool held => .bool held
  | .number literal => Casting.infer literal
  | .string held => .text held
  | .array items => .list (values items)
  | .object members => .map (Fields.ofList (fields members))

def values : List Json → List Value
  | [] => []
  | first :: rest => value first :: values rest

def fields : List (String × Json) → List (String × Value)
  | [] => []
  | (name, held) :: rest => (name, value held) :: fields rest

end

/-- The variables of a document, which is an object or nothing. -/
def ofJson : Json → Attempt (Fields Value)
  | .null => .ok []
  | .object members => .ok (Fields.ofList (fields members))
  | _ => Attempt.fail .wrongType

def parse (text : List Char) : Attempt (Fields Value) :=
  match Yaml.parse? text with
  | none => Attempt.fail .external
  | some document =>
    match document.toJson? with
    | none => Attempt.fail .malformedJson
    | some json => ofJson json

/-- One assignment: a name and a literal with an equals sign between them. -/
def assign (held : Fields Value) (assignment : String) : Attempt (Fields Value) :=
  let characters := assignment.toList
  let name := Text.trim (characters.takeWhile (· != '='))
  match characters.dropWhile (· != '=') with
  | [] => Attempt.fail (.invalidVariable assignment)
  | _ :: literal =>
    if name.isEmpty then Attempt.fail (.invalidVariable assignment)
    else
      .ok (Fields.set (String.ofList name) (Casting.infer (String.ofList literal)) held)

def assignAll : Fields Value → List String → Attempt (Fields Value)
  | held, [] => .ok held
  | held, first :: rest => do assignAll (← assign held first) rest

end StepQuery.Variables
