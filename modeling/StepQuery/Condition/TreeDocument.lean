import StepQuery.Condition.Tree
import StepQuery.Pipeline.Write

/-!
Groups of the condition editor as documents.  Reading is lenient: members that are not known are
passed over, and the first value that does not fit is reported.
-/

namespace StepQuery.Group

/-- The readings of a member of a group: the document itself, and its items as groups. -/
structure Member where
  json : Json
  groups : List (Group → Group × Option Cause)

def looseComparison : List (String × Json) → Comparison → Comparison × Option Cause
  | [], held => (held, none)
  | (key, json) :: rest, held =>
    let fields : List (String × (Json → Comparison × Option Cause)) :=
      [Record.slot "column" Record.text held.column fun found => { held with column := found },
        Record.slot "operator" Record.text held.operator fun found => { held with operator := found },
        Record.slot "value" Record.value held.value fun found => { held with value := found }]
    let (stored, misfit) := match Record.field? fields key with
      | none => (held, none)
      | some store => store json
    let (read, later) := looseComparison rest stored
    (read, misfit <|> later)

/-- A comparison, or a missing one. -/
def comparison : Record.Store (Option Comparison)
  | .null, _ => (none, none)
  | .object members, held =>
    let (read, misfit) := looseComparison members (held.getD ⟨"", "", .null⟩)
    (some read, misfit)
  | _, held => Record.misfit (some (held.getD ⟨"", "", .null⟩))

def comparisons : Record.Store (List (Option Comparison))
  | .null, _ => ([], none)
  | .array items, held => Record.items none comparison items held
  | _, held => Record.misfit held

/-- Items of a list of groups, each taken into what stood at its place. -/
def items : List (Group → Group × Option Cause) → List Group → List Group × Option Cause
  | [], _ => ([], none)
  | item :: rest, held =>
    let (first, misfit) := item (held.headD (.node "" [] []))
    let (others, later) := items rest held.tail
    (first :: others, misfit <|> later)

def groups (member : Member) (held : List Group) : List Group × Option Cause :=
  match member.json with
  | .null => ([], none)
  | .array _ => items member.groups held
  | _ => Record.misfit held

def readMembers : List (String × Member) → Group → Group × Option Cause
  | [], held => (held, none)
  | (key, member) :: rest, .node operator compared nested =>
    let fields : List (String × (Member → Group × Option Cause)) :=
      [("operator", fun member =>
          let (found, misfit) := Record.text member.json operator
          (.node found compared nested, misfit)),
        ("conditions", fun member =>
          let (found, misfit) := comparisons member.json compared
          (.node operator found nested, misfit)),
        ("groups", fun member =>
          let (found, misfit) := groups member nested
          (.node operator compared found, misfit))]
    let (stored, misfit) := match Record.field? fields key with
      | none => (.node operator compared nested, none)
      | some store => store member
    let (read, later) := readMembers rest stored
    (read, misfit <|> later)

mutual

/-- How a document is taken into a group. -/
def store : Json → Group → Group × Option Cause
  | .null, held => (held, none)
  | .object members, held => readMembers (membersOf members) held
  | _, held => Record.misfit held

def membersOf : List (String × Json) → List (String × Member)
  | [] => []
  | (key, json) :: rest => (key, ⟨json, storesOf json⟩) :: membersOf rest

def storesOf : Json → List (Group → Group × Option Cause)
  | .array items => storesOfItems items
  | _ => []

def storesOfItems : List Json → List (Group → Group × Option Cause)
  | [] => []
  | item :: rest => store item :: storesOfItems rest

end

def ofJson (json : Json) : Attempt Group :=
  match store json (.node "" [] []) with
  | (group, none) => .ok group
  | (_, some misfit) => Attempt.fail misfit

def comparisonsJson? : List (Option Comparison) → Option (List Json)
  | [] => some []
  | none :: rest => do return .null :: (← comparisonsJson? rest)
  | some comparison :: rest => do
    let first ← Condition.comparisonJson comparison
    return first :: (← comparisonsJson? rest)

mutual

def toJson? : Group → Option Json
  | .node operator comparisons groups => do
    let compared ← comparisonsJson? comparisons
    let nested ← groupsJson? groups
    return .object [("operator", .string operator), ("conditions", .array compared),
      ("groups", .array nested)]

def groupsJson? : List Group → Option (List Json)
  | [] => some []
  | group :: rest => do
    let first ← toJson? group
    let others ← groupsJson? rest
    return first :: others

end

end StepQuery.Group
