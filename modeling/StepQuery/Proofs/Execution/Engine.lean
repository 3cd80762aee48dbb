import Mathlib.Algebra.Ring.Int.Defs
import StepQuery.Proofs.Constant.Reading
import StepQuery.Proofs.Query.Merging

/-!
What stages make of documents.  How expressions are read, which fields a stage writes, keeps and
removes, how rows are gathered, numbered and taken out of arrays again, and what a lookup sees is laid
down here.  What values are equal or come first, what an operator computes from its arguments, and what
happens below the fields of a document is left to an engine, and so is the order of groups.

A stage or an expression that an engine refuses yields nothing.
-/

namespace StepQuery

namespace Fields

section Entries

variable {α : Type}

def erase (name : String) (fields : Fields α) : Fields α := fields.filter fun entry => entry.1 != name

/-- Write an entry, or remove it if there is nothing to write. -/
def place (name : String) (value : Option α) (fields : Fields α) : Fields α :=
  match value with
  | some value => set name value fields
  | none => erase name fields

/-- The entries of two documents, of which those of the second count. -/
def overlay (fields others : Fields α) : Fields α :=
  others.foldl (fun made entry => set entry.1 entry.2 made) fields

end Entries

/-- What names one below the other reach; in a list they are looked up in every document. -/
def reach (fields : Fields Value) : List String → Option Value
  | [] => some (.map fields)
  | [name] => fields.get? name
  | name :: rest =>
    match fields.get? name with
    | some (.map inner) => reach inner rest
    | some (.list items) => some (.list (items.filterMap fun item =>
        match item with
        | .map inner => reach inner rest
        | _ => none))
    | _ => none

end Fields

/-- What an expression can see: the row at hand, and the variables bound by the lookups around it. -/
structure View where
  row : Fields Value
  bound : Fields Value

/-- What a path reaches.  Behind a second mark it begins at a variable; the row is one of them. -/
def View.reach (view : View) (path : String) : Option Value :=
  match path.toList with
  | '$' :: name =>
    (Fields.set "ROOT" (.map view.row) view.bound).reach (pathNames (String.ofList name))
  | _ => view.row.reach (pathNames path)

/-- What a stage can see besides its rows: the collections, and the variables bound around it. -/
structure Context where
  collections : String → List (Fields Value)
  bound : Fields Value

/-- What may happen to a field. -/
inductive Change where
  | write (value : Option Value)
  | keep
  | remove

/-- What is decided by who executes a query.  Of what lies below the fields of a row, `within` says
what becomes of it; how `deal` arranges groups is arbitrary. -/
structure Engine where
  passes : (operator : String) → (held : Option Value) → (operand : Value) → Bool
  operate : (operator : String) → (arguments : List (Option Value)) → Option Value
  accumulate : (operator : String) → (arguments : List (Option Value)) → Option Value
  within : Change → (below : List String) → (held made : Option Value) → Option Value
  same : Value → Value → Bool
  sort : (keys : List (String × Int)) → List (Fields Value) → List (Fields Value)
  deal : List (Value × List (Fields Value)) → List (Value × List (Fields Value))
  custom : (fields : List (String × Term)) → Context → List (Fields Value) → List (Fields Value)
  same_equivalence : Equivalence fun first second => same first second = true
  sort_perm : ∀ keys rows, (sort keys rows).Perm rows
  deal_perm : ∀ groups, (deal groups).Perm groups

namespace Operator

/-- What is merged where a value stands; nothing and null are no more than an empty document. -/
def mergeable? : Option Value → Option (Fields Value)
  | none | some .null => some []
  | some (.map fields) => some fields
  | _ => none

def mergeOnto (made : Fields Value) : List (Option Value) → Option (Fields Value)
  | [] => some made
  | argument :: rest => do mergeOnto (Fields.overlay made (← mergeable? argument)) rest

def concatenate? : List (Option Value) → Option (List Value)
  | [] => some []
  | some (.list items) :: rest => do return items ++ (← concatenate? rest)
  | _ => none

/-- The first items of a list, or the last ones if their number is negative. -/
def slice {α : Type} (items : List α) (count : Int) : List α :=
  if 0 ≤ count then items.take count.toNat else items.drop (items.length - count.natAbs)

theorem slice_map {α β : Type} (make : α → β) (items : List α) (count : Int) :
    slice (items.map make) count = (slice items count).map make := by
  unfold slice
  split <;> simp

theorem mem_of_mem_slice {α : Type} {items : List α} {count : Int} {item : α}
    (member : item ∈ slice items count) : item ∈ items := by
  unfold slice at member
  split at member
  · exact List.mem_of_mem_take member
  · exact List.mem_of_mem_drop member

end Operator

/-- How an `$unwind` goes through a field. -/
structure Unwinding where
  path : List String
  index : Option String
  keepsEmpty : Bool

namespace Unwinding

def path? : Value → Option (List String)
  | .text content =>
    match content.toList with
    | '$' :: path => some (pathNames (String.ofList path))
    | _ => none
  | _ => none

def ofValue? : Value → Option Unwinding
  | .map fields => do
    let path ← path? (← Fields.get? fields "path")
    let index := match Fields.get? fields "includeArrayIndex" with
      | some (.text name) => some name
      | _ => none
    let keepsEmpty := match Fields.get? fields "preserveNullAndEmptyArrays" with
      | some (.bool keeps) => keeps
      | _ => false
    return ⟨path, index, keepsEmpty⟩
  | value => do return ⟨← path? value, none, false⟩

end Unwinding

/-- What a field of a `$project` says, unless it is computed. -/
def Term.flag? : Term → Option Bool
  | .constant (.int flag) => some (flag != 0)
  | .constant (.bool flag) => some flag
  | _ => none

namespace Engine

variable (engine : Engine)

section Expressions

/-- What an operator makes of its arguments. -/
def apply : String → List (Option Value) → Option Value
  | "$mergeObjects", arguments => (Operator.mergeOnto [] arguments).map .map
  | "$concatArrays", arguments => some (((Operator.concatenate? arguments).map .list).getD .null)
  | "$slice", [some (.list items), some (.int count)] =>
    some (.list (Operator.slice items count.toInt))
  | "$cond", [test, consequent, alternative] => if Value.truth test then consequent else alternative
  | operator, arguments => engine.operate operator arguments

def server : Server View := ⟨View.reach, engine.passes, engine.apply⟩

/-- What an expression comes to on a row. -/
def read (context : Context) (row : Fields Value) (term : Term) : Option Value :=
  (engine.server.evaluate ⟨row, context.bound⟩ term.data).join

/-- Whether a row satisfies a match document that is no conjunction. -/
def holds (context : Context) : Term → Fields Value → Bool
  | .document [("$expr", expression)], row => Value.truth (engine.read context row expression)
  | term, row => engine.server.satisfies ⟨row, context.bound⟩ term.data

end Expressions

section Fields

/-- Change what a row holds under a path, in what has been made of the row already. -/
def change (row : Fields Value) (change : Change) : (path : List String) →
    (made : Fields Value) → Fields Value
  | [], made => made
  | [name], made =>
    match change with
    | .write value => made.place name value
    | .keep => made.place name (row.get? name)
    | .remove => made.erase name
  | name :: below, made =>
    made.place name (engine.within change below (row.get? name) (made.get? name))

/-- Compute fields, each of them from the row as it was. -/
def addFields (fields : List (String × Term)) (context : Context) (row : Fields Value) :
    Fields Value :=
  fields.foldl (fun made field =>
    engine.change row (.write (engine.read context row field.2)) (pathNames field.1) made) row

def exclude (fields : List (String × Term)) (row : Fields Value) : Fields Value :=
  fields.foldl (fun made field => engine.change row .remove (pathNames field.1) made) row

/-- What a field of a `$project` adds to what is kept. -/
def take (context : Context) (row made : Fields Value) (field : String × Term) : Fields Value :=
  match field.2.flag? with
  | some false => made
  | some true => engine.change row .keep (pathNames field.1) made
  | none => engine.change row (.write (engine.read context row field.2)) (pathNames field.1) made

/-- Keep and compute fields; the identity of a row is kept unless it is excluded. -/
def select (fields : List (String × Term)) (context : Context) (row : Fields Value) :
    Fields Value :=
  let excluded := ((Fields.get? fields "_id").bind Term.flag?) == some false
  let identity := if excluded then [] else Fields.place "_id" (row.get? "_id") []
  fields.foldl (engine.take context row) identity

def project (fields : List (String × Term)) (context : Context) (row : Fields Value) :
    Fields Value :=
  if fields.all fun field => field.2.flag? == some false then engine.exclude fields row
  else engine.select fields context row

end Fields

section Groups

/-- Put a row to the others of its key. -/
def enter (key : Value) (row : Fields Value) :
    List (Value × List (Fields Value)) → List (Value × List (Fields Value))
  | [] => [(key, [row])]
  | (held, rows) :: rest =>
    if engine.same held key then (held, rows ++ [row]) :: rest
    else (held, rows) :: enter key row rest

/-- Rows by their keys, in their order. -/
def gathered (key : Fields Value → Value) (rows : List (Fields Value)) :
    List (Value × List (Fields Value)) :=
  rows.foldl (fun groups row => engine.enter (key row) row groups) []

/-- What a field of a `$group` gathers from the rows of a group. -/
def accumulated (context : Context) (members : List (Fields Value)) : Term → Option Value
  | .document [("$push", argument)] =>
    some (.list (members.filterMap fun row => engine.read context row argument))
  | .document [(operator, argument)] =>
    engine.accumulate operator (members.map fun row => engine.read context row argument)
  | _ => none

def groupKey (fields : List (String × Term)) (context : Context) (row : Fields Value) : Value :=
  ((Fields.get? fields "_id").bind (engine.read context row)).getD .null

/-- The row that a group becomes. -/
def groupRow (fields : List (String × Term)) (context : Context)
    (group : Value × List (Fields Value)) : Fields Value :=
  fields.filterMap fun field =>
    (if field.1 = "_id" then some group.1 else engine.accumulated context group.2 field.2).map
      fun value => (field.1, value)

def group (fields : List (String × Term)) (context : Context) (rows : List (Fields Value)) :
    List (Fields Value) :=
  if fields.all fun field => isFieldName field.1 then
    (engine.deal (engine.gathered (engine.groupKey fields context) rows)).map
      (engine.groupRow fields context)
  else []

end Groups

section Rows

/-- A row with one item of a field in the place of the field. -/
def unwoundItem (unwinding : Unwinding) (row : Fields Value) (item : Option Value) (index : Value) :
    Fields Value :=
  let changed := engine.change row (.write item) unwinding.path row
  match unwinding.index with
  | some name => changed.set name index
  | none => changed

/-- The rows that a row becomes, one for each item of a field. -/
def unwound (unwinding : Unwinding) (row : Fields Value) : List (Fields Value) :=
  match row.reach unwinding.path with
  | some (.list []) => if unwinding.keepsEmpty then [engine.unwoundItem unwinding row none .null] else []
  | some (.list items) => items.zipIdx.map fun (item, index) =>
      engine.unwoundItem unwinding row (some item) (.int (Int64.ofNat index))
  | none => if unwinding.keepsEmpty then [engine.unwoundItem unwinding row none .null] else []
  | some .null =>
    if unwinding.keepsEmpty then [engine.unwoundItem unwinding row (some .null) .null] else []
  | some item => [engine.unwoundItem unwinding row (some item) .null]

def replaceRoot (root : Term) (context : Context) (row : Fields Value) : Option (Fields Value) :=
  match engine.read context row root with
  | some (.map fields) => some fields
  | _ => none

/-- The variables for the stages of a lookup. -/
def bind (context : Context) (row : Fields Value) : List (String × Term) → Fields Value
  | [] => context.bound
  | (name, term) :: rest => (bind context row rest).place name (engine.read context row term)

end Rows

section Stages

/-- Attach to every row what stages make of a collection. -/
def attach (source : String) (bindings : Option (List (String × Term))) (target : String)
    (found : Context → List (Fields Value) → List (Fields Value)) (context : Context)
    (rows : List (Fields Value)) : List (Fields Value) :=
  rows.map fun row =>
    let inner : Context := ⟨context.collections, engine.bind context row (bindings.getD [])⟩
    row.set target (.list ((found inner (context.collections source)).map .map))

/-- What a stage makes of rows, unless it matches or looks up. -/
def transform : Stage → Context → List (Fields Value) → List (Fields Value)
  | .addFields fields, context, rows =>
    if fields.isEmpty || !fields.all (fun field => isFieldPath field.1) then []
    else rows.map (engine.addFields fields context)
  | .project fields, context, rows =>
    if fields.isEmpty || !fields.all (fun field => isFieldPath field.1) then []
    else rows.map (engine.project fields context)
  | .group fields, context, rows => engine.group fields context rows
  | .sort keys, _, rows => if keys.isEmpty then [] else engine.sort keys rows
  | .unwind argument, _, rows =>
    match Unwinding.ofValue? argument.data with
    | some unwinding => rows.flatMap (engine.unwound unwinding)
    | none => []
  | .replaceRoot root, context, rows => rows.filterMap (engine.replaceRoot root context)
  | .custom fields, context, rows => engine.custom fields context rows
  | _, _, rows => rows

/-- What stages mean to an engine. -/
def meaning : Stage.Meaning (Fields Value) Context :=
  .ofParts engine.holds engine.attach engine.transform

/-- What stages make of rows, one after the other. -/
def run (stages : List Stage) (context : Context) (rows : List (Fields Value)) :
    List (Fields Value) :=
  Stage.runAll engine.meaning.run stages context rows

/-- The rows of a query. -/
def rows (query : Query) (context : Context) : List (Fields Value) :=
  engine.run query.stages context (context.collections query.domain)

end Stages

end Engine

namespace Fields

variable {α : Type}

@[simp]
theorem get?_place_self (name : String) (value : Option α) (fields : Fields α) :
    get? (place name value fields) name = value := by
  cases value with
  | some value => exact get?_set_self name value fields
  | none => simp [place, erase, get?]

end Fields

theorem View.reach_of_unmarked {path : String} (unmarked : isMarked path = false) (view : View) :
    view.reach path = view.row.reach (pathNames path) := by
  unfold reach
  split
  next marked => simp [isMarked, marked] at unmarked
  next => rfl

theorem View.reach_of_isFieldName {name : String} (field : isFieldName name) (view : View) :
    view.reach name = view.row.get? name := by
  rw [reach_of_unmarked (isMarked_of_isFieldName field), pathNames_of_isFieldName field]
  rfl

namespace Engine

variable (engine : Engine) (context : Context)

theorem read_column {name : String} (field : isFieldName name) (row : Fields Value) :
    engine.read context row (Term.column name) = row.get? name := by
  rw [read, Server.evaluate_column]
  exact View.reach_of_isFieldName field _

theorem read_root (row : Fields Value) : engine.read context row Term.root = some (.map row) := by
  change (Fields.set "ROOT" (.map row) context.bound).get? "ROOT" = _
  exact Fields.get?_set_self _ _ _

section Run

variable (rows : List (Fields Value))

@[simp]
theorem run_nil : engine.run [] context rows = rows := rfl

theorem run_cons (stage : Stage) (rest : List Stage) :
    engine.run (stage :: rest) context rows =
      engine.run rest context (engine.run [stage] context rows) := rfl

theorem run_append (stages others : List Stage) :
    engine.run (stages ++ others) context rows =
      engine.run others context (engine.run stages context rows) :=
  Stage.runAll_append engine.meaning.run stages others context rows

theorem run_matching (condition : List (String × Term)) :
    engine.run [.matching condition] context rows =
      rows.filter fun row => engine.meaning.satisfies context (.document condition) row :=
  engine.meaning.run_matching condition context rows

theorem run_addFields (fields : List (String × Term)) :
    engine.run [.addFields fields] context rows =
      if fields.isEmpty || !fields.all (fun field => isFieldPath field.1) then []
      else rows.map (engine.addFields fields context) := rfl

theorem run_project (fields : List (String × Term)) :
    engine.run [.project fields] context rows =
      if fields.isEmpty || !fields.all (fun field => isFieldPath field.1) then []
      else rows.map (engine.project fields context) := rfl

theorem run_group (fields : List (String × Term)) :
    engine.run [.group fields] context rows = engine.group fields context rows := rfl

theorem run_sort (keys : List (String × Int)) :
    engine.run [.sort keys] context rows = if keys.isEmpty then [] else engine.sort keys rows := rfl

theorem run_unwind (argument : Term) {unwinding : Unwinding}
    (read : Unwinding.ofValue? argument.data = some unwinding) :
    engine.run [.unwind argument] context rows = rows.flatMap (engine.unwound unwinding) := by
  change engine.transform (.unwind argument) context rows = _
  rw [transform, read]

theorem run_replaceRoot (root : Term) :
    engine.run [.replaceRoot root] context rows =
      rows.filterMap (engine.replaceRoot root context) := rfl

theorem run_lookup (source : String) (bindings : Option (List (String × Term)))
    (stages : List Stage) (target : String) :
    engine.run [.lookup source bindings stages target] context rows = rows.map fun row =>
      row.set target (.list ((engine.run stages
        ⟨context.collections, engine.bind context row (bindings.getD [])⟩
          (context.collections source)).map .map)) := by
  change Stage.runBy engine.holds engine.attach engine.transform _ context rows = _
  rw [Stage.runBy, Stage.runAllBy_eq]
  rfl

/-- Merging match stages leaves the rows as they are. -/
theorem run_simplify {stages : List Stage} (regular : ∀ stage ∈ stages, stage.Regular) :
    engine.run (Stage.simplify stages) context rows = engine.run stages context rows :=
  (Stage.SameRows.refl stages).simplify regular _ _ engine.meaning context rows

end Run

theorem replaceRoot_eq_some {root : Term} {context : Context} {row made : Fields Value} :
    engine.replaceRoot root context row = some made ↔
      engine.read context row root = some (.map made) := by
  unfold replaceRoot
  split
  next fields found => simp [found]
  next other =>
    simp only [reduceCtorEq, false_iff]
    exact other made

section Gathering

variable {rows : List (Fields Value)}

theorem enter_perm (key : Value) (row : Fields Value) (groups : List (Value × List (Fields Value))) :
    ((engine.enter key row groups).flatMap (·.2)).Perm (row :: groups.flatMap (·.2)) := by
  induction groups with
  | nil => exact .refl _
  | cons group rest inductionHypothesis =>
    unfold enter
    split
    · simp only [List.flatMap_cons, List.append_assoc]
      exact List.perm_middle
    · simp only [List.flatMap_cons]
      exact (inductionHypothesis.append_left _).trans List.perm_middle

/-- Gathering rows loses none and makes up none. -/
theorem gathered_perm (key : Fields Value → Value) (rows : List (Fields Value)) :
    ((engine.gathered key rows).flatMap (·.2)).Perm rows := by
  suffices general : ∀ groups : List (Value × List (Fields Value)),
      ((rows.foldl (fun groups row => engine.enter (key row) row groups) groups).flatMap (·.2)).Perm
        (groups.flatMap (·.2) ++ rows) from
    general []
  induction rows with
  | nil => exact fun groups => by rw [List.append_nil]; exact .refl _
  | cons row rest inductionHypothesis =>
    intro groups
    refine (inductionHypothesis _).trans ?_
    exact ((engine.enter_perm (key row) row groups).append_right rest).trans List.perm_middle.symm

theorem mem_of_dealt {key : Fields Value → Value} {group : Value × List (Fields Value)}
    (dealt : group ∈ engine.deal (engine.gathered key rows)) {row : Fields Value}
    (member : row ∈ group.2) : row ∈ rows :=
  (engine.gathered_perm key rows).mem_iff.mp
    (List.mem_flatMap.mpr ⟨group, (engine.deal_perm _).mem_iff.mp dealt, member⟩)

theorem accumulated_pushed (members : List (Fields Value)) :
    engine.accumulated context members Staging.pushedRows = some (.list (members.map .map)) := by
  change some (Value.list (members.filterMap fun row => engine.read context row Term.root)) = _
  simp only [read_root]
  rw [← List.filterMap_eq_map]
  rfl

/-- What a group leaves in a field that gathers its rows. -/
theorem get?_groupRow_pushed {fields : List (String × Term)} {name : String} (other : name ≠ "_id")
    (pushed : Fields.get? fields name = some Staging.pushedRows)
    (group : Value × List (Fields Value)) :
    Fields.get? (engine.groupRow fields context group) name = some (.list (group.2.map .map)) := by
  apply Fields.get?_filterMap pushed
  rw [if_neg other]
  exact engine.accumulated_pushed context group.2

end Gathering

section Whole

/-- The number that a value is computed with. -/
def wholeOf : Value → Option Int
  | .int number => some number.toInt
  | _ => none

def wholePrecedes : List (String × Int) → Fields Value → Fields Value → Bool
  | [], _, _ => true
  | (name, direction) :: rest, first, second =>
    let left := ((first.get? name).bind wholeOf).getD 0 * direction
    let right := ((second.get? name).bind wholeOf).getD 0 * direction
    left < right || left == right && wholePrecedes rest first second

def wholeOperate : String → List (Option Value) → Option Value
  | "$eq", [first, second] => some (.bool (first.bind wholeOf == second.bind wholeOf))
  | "$and", conditions => some (.bool (conditions.all Value.truth))
  | "$add", terms => some (.int (Int64.ofInt (terms.filterMap fun term => term.bind wholeOf).sum))
  | _, _ => none

def wholeAccumulate (operator : String) (values : List (Option Value)) : Option Value :=
  let numbers := values.filterMap fun value => value.bind wholeOf
  match operator with
  | "$sum" => some (.int (Int64.ofInt numbers.sum))
  | "$max" => numbers.max?.map fun number => .int (Int64.ofInt number)
  | "$min" => numbers.min?.map fun number => .int (Int64.ofInt number)
  | _ => none

/-- An engine for rows of small whole numbers. -/
def whole : Engine where
  passes operator held operand := operator == "$eq" && held.bind wholeOf == wholeOf operand
  operate := wholeOperate
  accumulate := wholeAccumulate
  within _ _ held _ := held
  same first second := first.written == second.written
  sort keys rows := rows.mergeSort (wholePrecedes keys)
  deal groups := groups
  custom _ _ rows := rows
  same_equivalence := ⟨fun _ => beq_self_eq_true _,
    fun same => beq_iff_eq.mpr (beq_iff_eq.mp same).symm,
    fun same other => beq_iff_eq.mpr ((beq_iff_eq.mp same).trans (beq_iff_eq.mp other))⟩
  sort_perm keys rows := List.mergeSort_perm rows (wholePrecedes keys)
  deal_perm _ := .refl _

end Whole

end Engine

end StepQuery
