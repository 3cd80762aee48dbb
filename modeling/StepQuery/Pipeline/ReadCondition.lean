import StepQuery.Pipeline.Record

/-!
Reading conditions and branches from documents.  The kind of a condition is told by its keys: `and`
and `or` combine, anything else compares one column.  Members are read together with what their
nested conditions or branches read as, so that the recursion follows the document.
-/

namespace StepQuery

namespace Condition

/-- A member of a condition object, with the reading of its items as conditions. -/
structure Member where
  json : Json
  children : List (Attempt Condition)

/-- The items of a combinator, up to the first that refuses. -/
def children : (index : Nat) → List (Attempt Condition) → Attempt (List Condition)
  | _, [] => .ok []
  | index, item :: rest => do
    match ← Attempt.inside (.condition index) item with
    | .absent => Attempt.fail (.nullCondition index)
    | child => do
      let others ← children (index + 1) rest
      return child :: others

/-- The one field of a combinator takes a list, or nothing. -/
def combinatorFields (name : String) (_ : List (Attempt Condition)) :
    List (String × (Member → Attempt (List (Attempt Condition) × Option Cause))) :=
  [(name, fun member =>
    match member.json with
    | .null => .ok ([], none)
    | .array _ => .ok (member.children, none)
    | _ => .ok ([], some .wrongType))]

def combinator (name : String) (members : List (String × Member)) : Attempt (List Condition) := do
  let items ← Attempt.inside (.seenAs .invalidCondition)
    (Record.read (combinatorFields name) members [] none)
  children 0 items

def comparisonFields (held : Comparison) :
    List (String × (Member → Attempt (Comparison × Option Cause))) :=
  let field {α : Type} (name : String) (store : Record.Store α) (old : α) (put : α → Comparison) :
      String × (Member → Attempt (Comparison × Option Cause)) :=
    (name, fun member => let (found, misfit) := store member.json old; .ok (put found, misfit))
  [field "column" Record.text held.column fun found => { held with column := found },
    field "operator" Record.text held.operator fun found => { held with operator := found },
    field "value" Record.value held.value fun found => { held with value := found }]

def ofMembers (members : List (String × Member)) : Attempt Condition :=
  let has (name : String) := members.any fun member => member.1 == name
  if has "and" && has "or" then Attempt.fail .conflictingCombinators
  else if has "and" then (combinator "and" members).map .all
  else if has "or" then (combinator "or" members).map .any
  else (Attempt.inside (.seenAs .invalidCondition)
    (Record.read comparisonFields members ⟨"", "", .null⟩ none)).map .simple

mutual

/-- The condition that a document writes.  `null` writes the absent one. -/
def ofJson : Json → Attempt Condition
  | .null => .ok .absent
  | .object members => ofMembers (membersOf members)
  | _ => Attempt.inside (.seenAs .invalidCondition) (Attempt.fail .wrongType)

def membersOf : List (String × Json) → List (String × Member)
  | [] => []
  | (key, .array items) :: rest => (key, ⟨.array items, itemsOf items⟩) :: membersOf rest
  | (key, json) :: rest => (key, ⟨json, []⟩) :: membersOf rest

def itemsOf : List Json → List (Attempt Condition)
  | [] => []
  | item :: rest => ofJson item :: itemsOf rest

end

end Condition

namespace Branch

/-- The parts of a branch as they stand in its object. -/
structure Parts where
  newColumn : String
  test : Json
  consequent : Json
  alternative : Json
  /-- What the alternative reads as when it continues the chain. -/
  next : Option (Attempt Branch)

/-- A member of a branch object, with its reading as a branch where it has the shape of one. -/
structure Member where
  json : Json
  branch : Option (Attempt Branch)

def partFields (parts : Parts) : List (String × (Member → Attempt (Parts × Option Cause))) :=
  [("if", fun member => .ok ({ parts with test := member.json }, none)),
    ("then", fun member => .ok ({ parts with consequent := member.json }, none)),
    ("else", fun member =>
      .ok ({ parts with alternative := member.json, next := member.branch }, none))]

/-- The fields of a step that holds a branch. -/
def stepFields (parts : Parts) : List (String × (Member → Attempt (Parts × Option Cause))) :=
  ("new_column", fun member =>
    let (found, misfit) := Record.text member.json parts.newColumn
    .ok ({ parts with newColumn := found }, misfit)) :: partFields parts

def plainValue (place : Place) (json : Json) : Attempt Value :=
  match Value.ofJson? json with
  | some value => .ok value
  | none => Attempt.inside (.seenAs .invalidStep)
    (Attempt.inside place (Attempt.fail .wrongType))

/-- Put a branch together.  The test is read first, then the values in order. -/
def ofParts (parts : Parts) : Attempt Branch := do
  let test ← Attempt.inside .branchIf (Condition.ofJson parts.test)
  let consequent ← plainValue .branchThen parts.consequent
  match parts.next with
  | some next => return .chain test consequent (← Attempt.inside .branchElse next)
  | none => return .last test consequent (← plainValue .branchElse parts.alternative)

def readParts (fields : Parts → List (String × (Member → Attempt (Parts × Option Cause))))
    (members : List (String × Member)) : Attempt Parts :=
  Attempt.inside (.seenAs .invalidStep)
    (Record.read fields members ⟨"", .null, .null, .null, none⟩ none)

mutual

def ofJson : Json → Attempt Branch
  | .null => .ok (.last .absent .null .null)
  | .object members => do ofParts (← readParts partFields (membersOf members))
  | _ => Attempt.inside (.seenAs .invalidStep) (Attempt.fail .wrongType)

/-- The members with their readings: an object with an `if` continues the chain. -/
def membersOf : List (String × Json) → List (String × Member)
  | [] => []
  | (key, .object members) :: rest =>
    let continues := members.any fun member => member.1 == "if"
    let branch := if continues then some (ofJson (.object members)) else none
    (key, ⟨.object members, branch⟩) :: membersOf rest
  | (key, json) :: rest => (key, ⟨json, none⟩) :: membersOf rest

end

end Branch

end StepQuery
