import StepQuery.Failure
import StepQuery.Pipeline.Basic
import StepQuery.Json.Printer

/-!
Strict reading of the members of an object.  A member that does not fit is remembered and reading
goes on, so that the first misfit in document order is the one reported; a member that refuses
outright stops the reading.
-/

namespace StepQuery.Record

/-- The letter a character counts as when member names are matched: case is ignored, and so are the
long s and the Kelvin sign. -/
def fold (character : Char) : Char :=
  if character == '\u017F' then 's'
  else if character == '\u212A' then 'k'
  else Text.lowerAscii character

def sameName (written declared : String) : Bool :=
  written.toList.map fold == declared.toList.map fold

/-- The declared field that a member belongs to: the one of exactly its name, otherwise one of the
same letters. -/
def field? {α : Type} (fields : List (String × α)) (written : String) : Option α :=
  match fields.find? fun field => field.1 == written with
  | some field => some field.2
  | none => (fields.find? fun field => sameName written field.1).map (·.2)

/-- Read members one after the other into a record.  `fields` lists, for the record read so far,
the declared fields and how each takes its member in. -/
def read {ρ μ : Type} (fields : ρ → List (String × (μ → Attempt (ρ × Option Cause)))) :
    List (String × μ) → ρ → Option Cause → Attempt ρ
  | [], record, none => .ok record
  | [], _, some misfit => Attempt.fail misfit
  | (key, member) :: rest, record, misfit =>
    match field? (fields record) key with
    | none => read fields rest record (misfit <|> some (.unknownField key))
    | some store => do
      let (record, found) ← store member
      read fields rest record (misfit <|> found)

/-- How a document value is taken into a field that holds something already. -/
abbrev Store (α : Type) := Json → α → α × Option Cause

def misfit {α : Type} (held : α) : α × Option Cause := (held, some .wrongType)

def text : Store String
  | .string value, _ => (value, none)
  | .null, held => (held, none)
  | _, held => misfit held

def flag : Store Bool
  | .bool value, _ => (value, none)
  | .null, held => (held, none)
  | _, held => misfit held

/-- A whole number of 64 bits, written without point or exponent. -/
def whole : Store Int
  | .number literal, held =>
    match Decimal.integer? literal.toList with
    | some n => if -(twoTo 63 : Int) ≤ n && n < twoTo 63 then (n, none) else misfit held
    | none => misfit held
  | .null, held => (held, none)
  | _, held => misfit held

def value : Store Value := fun json held =>
  match Value.ofJson? json with
  | some found => (found, none)
  | none => misfit held

/-- Items of a list, each taken into what stood at its place. -/
def items {α : Type} (blank : α) (store : Store α) : List Json → List α → List α × Option Cause
  | [], _ => ([], none)
  | item :: rest, held =>
    let (first, misfit) := store item (held.headD blank)
    let (others, later) := items blank store rest held.tail
    (first :: others, misfit <|> later)

def list {α : Type} (blank : α) (store : Store α) : Store (Option (List α))
  | .null, _ => (none, none)
  | .array found, held =>
    let (read, misfit) := items blank store found (held.getD [])
    (some read, misfit)
  | _, held => misfit held

/-- Two values of one kind.  Missing ones are blank and further ones dropped. -/
def pair {α : Type} (blank : α) (store : Store α) : Store (α × α)
  | .null, held => (held, none)
  | .array [], _ => ((blank, blank), none)
  | .array [first], held =>
    let (left, misfit) := store first held.1
    ((left, blank), misfit)
  | .array (first :: second :: _), held =>
    let (left, misfit) := store first held.1
    let (right, later) := store second held.2
    ((left, right), misfit <|> later)
  | _, held => misfit held

def texts : Store ColumnList := list "" text

def textPairs : Store ColumnPairs := list ("", "") (pair "" text)

/-- A field of a nested record: its name and how it takes its member in. -/
def slot {ρ α : Type} (name : String) (store : Store α) (held : α) (put : α → ρ) :
    String × (Json → ρ × Option Cause) :=
  (name, fun json => let (found, misfit) := store json held; (put found, misfit))

/-- Members of a nested record that is read in place. -/
def nestedMembers {ρ : Type} (fields : ρ → List (String × (Json → ρ × Option Cause))) :
    List (String × Json) → ρ → ρ × Option Cause
  | [], record => (record, none)
  | (key, member) :: rest, record =>
    match field? (fields record) key with
    | none =>
      let (read, _) := nestedMembers fields rest record
      (read, some (.unknownField key))
    | some store =>
      let (stored, misfit) := store member
      let (read, later) := nestedMembers fields rest stored
      (read, misfit <|> later)

def nested {ρ : Type} (fields : ρ → List (String × (Json → ρ × Option Cause))) : Store ρ
  | .object members, held => nestedMembers fields members held
  | .null, held => (held, none)
  | _, held => misfit held

def sortKey : Store SortKey :=
  nested fun held =>
    [slot "column" text held.column fun found => { held with column := found },
      slot "order" text held.order fun found => { held with order := found }]

def aggregation : Store Aggregation :=
  nested fun held =>
    [slot "columns" texts held.columns fun found => { held with columns := found },
      slot "newcolumns" texts held.newColumns fun found => { held with newColumns := found },
      slot "aggfunction" text held.function fun found => { held with function := found }]

end StepQuery.Record
