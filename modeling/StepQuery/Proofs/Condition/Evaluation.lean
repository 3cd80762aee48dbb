import StepQuery.Proofs.Fields
import StepQuery.Query.Term

/-!
The two languages of the database on flat documents: match documents and expressions.  What is sent to
the database is plain data, in which the constants of a query are no different from what it is built
of; a name that begins with `$` is an operator, and in an expression a text that begins with `$` is a
path.  How two values of one type are ordered and which values a pattern matches is left open.
-/

namespace StepQuery

namespace Term

mutual

/-- The data that a term is sent as. -/
def data : Term → Value
  | .constant value => value
  | .array items => .list (dataOf items)
  | .document fields => .map (dataOfFields fields)
  | .ordered fields => .map (dataOfFields fields)

def dataOf : List Term → List Value
  | [] => []
  | item :: rest => data item :: dataOf rest

def dataOfFields : List (String × Term) → List (String × Value)
  | [] => []
  | (name, term) :: rest => (name, data term) :: dataOfFields rest

end

@[simp]
theorem data_constant (value : Value) : (constant value).data = value := rfl

@[simp]
theorem data_array (items : List Term) : (array items).data = .list (dataOf items) := rfl

@[simp]
theorem data_entry (name : String) (term : Term) :
    (document [(name, term)]).data = .map [(name, term.data)] := rfl

@[simp]
theorem dataOf_nil : dataOf [] = [] := rfl

@[simp]
theorem dataOf_cons (item : Term) (rest : List Term) :
    dataOf (item :: rest) = item.data :: dataOf rest := rfl

theorem dataOf_eq (items : List Term) : dataOf items = items.map data := by
  induction items with
  | nil => rw [dataOf_nil, List.map_nil]
  | cons item rest inductionHypothesis => rw [dataOf_cons, inductionHypothesis, List.map_cons]

theorem dataOfFields_eq (fields : List (String × Term)) :
    dataOfFields fields = fields.map fun field => (field.1, field.2.data) := by
  induction fields with
  | nil => rw [dataOfFields, List.map_nil]
  | cons field rest inductionHypothesis => rw [dataOfFields, inductionHypothesis, List.map_cons]

@[simp]
theorem data_apply (operator : String) (argument : Term) :
    (apply operator argument).data = .map [(operator, argument.data)] := data_entry operator argument

@[simp]
theorem data_call (operator : String) (arguments : List Term) :
    (call operator arguments).data = .map [(operator, .list (dataOf arguments))] := by
  rw [call, data_apply, data_array]

theorem data_pair {first second : String} (ascending : first < second) (term other : Term) :
    (Term.fields [(first, term), (second, other)]).data =
      .map [(first, term.data), (second, other.data)] := by
  have sorted : Fields.Ascending [(first, term), (second, other)] := List.pairwise_pair.mpr ascending
  simp [Term.fields, sorted.ofList_eq, data, dataOfFields]

end Term

namespace Value

/-- The types that values are compared within, in ascending order. -/
inductive Bracket where
  | null
  | number
  | text
  | map
  | list
  | bytes
  | bool
  | date
deriving DecidableEq, Ord

def bracket : Value → Bracket
  | .null => .null
  | .int _ | .uint _ | .single _ | .double _ | .decimal _ => .number
  | .text _ => .text
  | .map _ => .map
  | .list _ => .list
  | .bytes _ => .bytes
  | .bool _ => .bool
  | .date _ => .date

def isScalar : Value → Bool
  | .list _ | .map _ => false
  | _ => true

/-- The truth of a value: nothing, null, zero and false are not true. -/
def truth : Option Value → Bool
  | none | some .null => false
  | some (.bool value) => value
  | some (.int value) => value != 0
  | some (.uint value) => value != 0
  | some (.single value) => value != 0
  | some (.double value) => value != 0
  | some (.decimal value) => value.coefficient != 0
  | some _ => true

end Value

/-- Whether a name or a text begins with the mark of operators and paths. -/
def isMarked (name : String) : Bool := name.toList.head? == some '$'

/-- Whether a path of one step reaches the field of a name. -/
def isFieldName (name : String) : Bool :=
  !name.toList.isEmpty && !isMarked name && !name.toList.contains '.'

/-- The names that a path goes through. -/
def pathNames (path : String) : List String := (path.toList.splitOn '.').map String.ofList

/-- Whether a path may be written: each of its names is a field name. -/
def isFieldPath (path : String) : Bool := (pathNames path).all isFieldName

theorem pathNames_of_isFieldName {name : String} (field : isFieldName name) :
    pathNames name = [name] := by
  have undotted : '.' ∉ name.toList := by
    simp only [isFieldName, Bool.and_eq_true, Bool.not_eq_true', List.contains_eq_mem,
      decide_eq_false_iff_not] at field
    exact field.2
  rw [pathNames, List.splitOn_eq_singleton undotted, List.map_singleton, String.ofList_toList]

theorem isFieldPath_of_isFieldName {name : String} (field : isFieldName name) :
    isFieldPath name := by
  rw [isFieldPath, pathNames_of_isFieldName field, List.all_cons, field, List.all_nil, Bool.and_true]

theorem isPrefix_of_splitOnP {test : Char → Bool} {whole head : List Char}
    (first : head ∈ (whole.splitOnP test).head?) : head <+: whole := by
  induction whole generalizing head with
  | nil =>
    rw [List.splitOnP_nil] at first
    cases first
    exact List.prefix_rfl
  | cons character rest inductionHypothesis =>
    rw [List.splitOnP_cons_eq_if_modifyHead] at first
    split at first
    · cases first
      exact List.nil_prefix
    · rw [List.head?_modifyHead] at first
      obtain ⟨later, found, rfl⟩ := Option.map_eq_some_iff.mp first
      exact List.prefix_cons_inj character |>.mpr (inductionHypothesis found)

theorem isPrefix_of_pathNames {path head : String} (first : head ∈ (pathNames path).head?) :
    head.toList <+: path.toList := by
  rw [pathNames, List.head?_map, Option.mem_def, Option.map_eq_some_iff] at first
  obtain ⟨characters, first, rfl⟩ := first
  rw [String.toList_ofList]
  exact isPrefix_of_splitOnP first

/-- A path begins with a character of its first name. -/
theorem begins_of_isFieldPath {path : String} (valid : isFieldPath path) :
    ∃ character rest, path.toList = character :: rest ∧ character ≠ '$' := by
  cases names : pathNames path with
  | nil => exact absurd (List.map_eq_nil_iff.mp names) (List.splitOn_ne_nil _ _)
  | cons name others =>
    rw [isFieldPath, names, List.all_cons, Bool.and_eq_true] at valid
    have first : name ∈ (pathNames path).head? := by
      rw [names, List.head?_cons, Option.mem_some_iff]
    obtain ⟨following, characters⟩ := isPrefix_of_pathNames first
    have field := valid.1
    simp only [isFieldName, isMarked, Bool.and_eq_true, Bool.not_eq_true'] at field
    cases begin : name.toList with
    | nil => simp [begin] at field
    | cons character rest =>
      refine ⟨character, rest ++ following, by rw [← characters, begin, List.cons_append], ?_⟩
      rintro rfl
      simp [begin] at field

theorem isMarked_of_isFieldPath {path : String} (valid : isFieldPath path) :
    isMarked path = false := by
  obtain ⟨character, rest, characters, other⟩ := begins_of_isFieldPath valid
  simp [isMarked, characters, other]

/-- A document whose fields hold scalars. -/
structure FlatDocument where
  fields : Fields Value
  flat : ∀ entry ∈ fields, entry.2.isScalar

namespace FlatDocument

/-- What a path reaches.  A path of several steps ends before it reaches anything, for no field holds
fields of its own. -/
def at? (document : FlatDocument) (path : String) : Option Value :=
  if isFieldName path then document.fields.get? path else none

theorem isFieldName_of_at? {document : FlatDocument} {path : String} {held : Value}
    (found : document.at? path = some held) : isFieldName path := by
  unfold at? at found
  split at found
  · assumption
  · cases found

end FlatDocument

theorem isMarked_of_isFieldName {name : String} (field : isFieldName name) :
    isMarked name = false := by
  simp only [isFieldName, Bool.and_eq_true, Bool.not_eq_true'] at field
  exact field.1.2

/-- What a database decides on its own: how values of one type are ordered, and whether a pattern
matches a value. -/
structure Database where
  order : Value → Value → Ordering
  total : Std.TransCmp order
  pattern : Value → Value → Bool

namespace Database

variable (database : Database) (document : FlatDocument)

/-- The order of all values: nothing is below every value, and types come in their own order. -/
def compare : Option Value → Option Value → Ordering
  | none, none => .eq
  | none, some _ => .lt
  | some _, none => .gt
  | some first, some second =>
    if first.bracket = second.bracket then database.order first second
    else Ord.compare first.bracket second.bracket

/-- Whether a pattern matches what a field holds; null is matched by none. -/
def matched (pattern : Value) : Option Value → Bool
  | none | some .null => false
  | some value => database.pattern pattern value

/-- What the name of a comparison asks of an order. -/
def comparison? : String → Option (Ordering → Bool)
  | "$eq" => some Ordering.isEq
  | "$ne" => some Ordering.isNe
  | "$gt" => some Ordering.isGT
  | "$gte" => some Ordering.isGE
  | "$lt" => some Ordering.isLT
  | "$lte" => some Ordering.isLE
  | _ => none

section Match

/-- Equality in a match document, where a missing field equals null. -/
def equals (held : Option Value) (operand : Value) : Bool :=
  (database.compare (some (held.getD .null)) (some operand)).isEq

/-- An order in a match document, where only values of the operand's type are compared. -/
def ordered (held : Option Value) (operand : Value) (test : Ordering → Bool) : Bool :=
  match held with
  | none => false
  | some value => value.bracket == operand.bracket && test (database.order value operand)

/-- What an operator demands of a field, except for the one that takes operators itself. -/
def demanded (held : Option Value) (operator : String) (operand : Value) : Option Bool :=
  match operator, operand with
  | "$eq", operand => some (database.equals held operand)
  | "$ne", operand => some (!database.equals held operand)
  | "$in", .list items => some (items.any fun item => database.equals held item)
  | "$nin", .list items => some (!items.any fun item => database.equals held item)
  | "$regex", operand => some (database.matched operand held)
  | operator, operand => (comparison? operator).map fun test => database.ordered held operand test

mutual

/-- Whether a field meets a demand; `none` if the demand is malformed. -/
def meets (held : Option Value) : Value → Option Bool
  | .map fields =>
    if fields.any fun field => isMarked field.1 then meetsAll held fields
    else some (database.equals held (.map fields))
  | value => some (database.equals held value)

def meetsAll (held : Option Value) : List (String × Value) → Option Bool
  | [] => some true
  | (operator, operand) :: rest => do
    let first ← if operator == "$not" then (meets held operand).map not
      else database.demanded held operator operand
    let others ← meetsAll held rest
    return first && others

end

mutual

/-- Whether a document satisfies a match document; `none` if that is malformed. -/
def satisfies : Value → Option Bool
  | .map fields => satisfiesAll fields
  | _ => none

def satisfiesAll : List (String × Value) → Option Bool
  | [] => some true
  | (name, demand) :: rest => do
    let first ← satisfiesField name demand
    let others ← satisfiesAll rest
    return first && others

def satisfiesField : String → Value → Option Bool
  | "$and", .list items => do
    if items.isEmpty then none else return (← satisfiesEach items).all id
  | "$or", .list items => do
    if items.isEmpty then none else return (← satisfiesEach items).any id
  | name, demand =>
    if isMarked name then none else database.meets (document.at? name) demand

def satisfiesEach : List Value → Option (List Bool)
  | [] => some []
  | item :: rest => do
    let first ← satisfies item
    let others ← satisfiesEach rest
    return first :: others

end

end Match

section Expression

/-- A text that is a path stands for what it reaches; a second mark makes it a variable, and nothing
behind the mark is no path at all. -/
def operand (content : String) : Option (Option Value) :=
  match content.toList with
  | '$' :: path =>
    if path.isEmpty || path.head? == some '$' then none
    else some (document.at? (String.ofList path))
  | _ => some (some (.text content))

mutual

/-- What an expression comes to: `none` if it is malformed, and nothing where a field is missing. -/
def evaluate : Value → Option (Option Value)
  | .text content => operand document content
  | .list items => do return some (.list ((← evaluateEach items).map (·.getD .null)))
  | .map [(name, argument)] =>
    if isMarked name then apply name argument
    else do return some (.map [(name, (← evaluate argument).getD .null)])
  | .map fields => do return some (.map (← evaluateFields fields))
  | scalar => some (some scalar)

def apply : String → Value → Option (Option Value)
  | "$literal", value => some (some value)
  | "$and", .list items => do return some (.bool ((← evaluateEach items).all Value.truth))
  | "$or", .list items => do return some (.bool ((← evaluateEach items).any Value.truth))
  | "$not", .list [item] => do return some (.bool (!Value.truth (← evaluate item)))
  | "$in", .list [item, list] => do
    let found ← evaluate item
    match ← evaluate list with
    | some (.list items) =>
      return some (.bool (items.any fun item => (database.compare found (some item)).isEq))
    | _ => none
  | "$regexMatch", .map [("input", input), ("regex", pattern)] => do
    let found ← evaluate input
    let pattern ← evaluate pattern
    return some (.bool (database.matched (pattern.getD .null) found))
  | name, .list [first, second] => do
    let test ← comparison? name
    let found ← evaluate first
    let other ← evaluate second
    return some (.bool (test (database.compare found other)))
  | _, _ => none

def evaluateEach : List Value → Option (List (Option Value))
  | [] => some []
  | item :: rest => do
    let first ← evaluate item
    let others ← evaluateEach rest
    return first :: others

def evaluateFields : List (String × Value) → Option (List (String × Value))
  | [] => some []
  | (name, item) :: rest => do
    if isMarked name then none
    else
      let first ← evaluate item
      let others ← evaluateFields rest
      return (first.map fun value => (name, value)).toList ++ others

end

end Expression

section Lemmas

variable {database : Database} {document : FlatDocument} {held : Value}

theorem compare_of_bracket {value : Value} (same : value.bracket = held.bracket) :
    database.compare (some held) (some value) = database.order held value :=
  if_pos same.symm

theorem compare_null (present : held.bracket ≠ .null) :
    database.compare (some held) (some .null) = .gt := by
  have different : held.bracket ≠ Value.null.bracket := present
  rw [compare, if_neg different]
  cases type : held.bracket with
  | null => exact absurd type present
  | _ => rfl

theorem any_compare {items : List Value} (same : ∀ item ∈ items, item.bracket = held.bracket) :
    (items.any fun item => (database.compare (some held) (some item)).isEq) =
      items.any fun item => (database.order held item).isEq := by
  induction items with
  | nil => rfl
  | cons item rest inductionHypothesis =>
    obtain ⟨first, later⟩ := List.forall_mem_cons.mp same
    rw [List.any_cons, List.any_cons, compare_of_bracket first, inductionHypothesis later]

theorem matched_of_present (present : held.bracket ≠ .null) (pattern : Value) :
    database.matched pattern (some held) = database.pattern pattern held := by
  cases held with
  | null => exact absurd rfl present
  | _ => rfl

section Match

/-- A match document of one field asks for what the field does. -/
theorem satisfies_field (name : String) (demand : Value) :
    database.satisfies document (.map [(name, demand)]) =
      database.satisfiesField document name demand := by
  change (do
    let first ← database.satisfiesField document name demand
    some (first && true)) = _
  cases database.satisfiesField document name demand <;> simp

theorem satisfiesField_and (items : List Value) :
    database.satisfiesField document "$and" (.list items) =
      if items.isEmpty then none
      else do return (← database.satisfiesEach document items).all id := rfl

theorem satisfiesField_or (items : List Value) :
    database.satisfiesField document "$or" (.list items) =
      if items.isEmpty then none
      else do return (← database.satisfiesEach document items).any id := rfl

theorem satisfies_entry {column : String} (path : isFieldPath column) (demand : Value) :
    database.satisfies document (.map [(column, demand)]) =
      database.meets (document.at? column) demand := by
  have unmarked := isMarked_of_isFieldPath path
  have entry : database.satisfiesField document column demand =
      database.meets (document.at? column) demand := by
    unfold satisfiesField
    split
    · cases unmarked
    · cases unmarked
    · rw [if_neg (by simp [unmarked])]
  rw [satisfies_field, entry]

theorem ne_nil_of_satisfiesEach {items : List Value} {verdicts : List Bool}
    (each : database.satisfiesEach document items = some verdicts) (given : verdicts ≠ []) :
    items ≠ [] := by
  rintro rfl
  change some [] = some verdicts at each
  exact given (Option.some.inj each).symm

theorem satisfies_and {items : List Value} {verdicts : List Bool}
    (each : database.satisfiesEach document items = some verdicts) (given : verdicts ≠ []) :
    database.satisfies document (.map [("$and", .list items)]) = some (verdicts.all id) := by
  have filled := ne_nil_of_satisfiesEach each given
  simp [satisfies_field, satisfiesField_and, each, filled]

theorem satisfies_or {items : List Value} {verdicts : List Bool}
    (each : database.satisfiesEach document items = some verdicts) (given : verdicts ≠ []) :
    database.satisfies document (.map [("$or", .list items)]) = some (verdicts.any id) := by
  have filled := ne_nil_of_satisfiesEach each given
  simp [satisfies_field, satisfiesField_or, each, filled]

theorem meets_scalar {found : Option Value} {value : Value} (scalar : value.isScalar) :
    database.meets found value = some (database.equals found value) := by
  cases value with
  | map fields => cases scalar
  | _ => rfl

/-- An operator that stands alone is all that is demanded. -/
theorem meets_marked (found : Option Value) {operator : String} (marked : isMarked operator)
    (operand : Value) : database.meets found (.map [(operator, operand)]) =
      if operator = "$not" then (database.meets found operand).map not
      else database.demanded found operator operand := by
  have alone : ([(operator, operand)].any fun field => isMarked field.1) = true := by simp [marked]
  change (if [(operator, operand)].any fun field => isMarked field.1 then (do
      let first ← if operator == "$not" then (database.meets found operand).map not
        else database.demanded found operator operand
      some (first && true)) else _) = _
  rw [if_pos alone]
  by_cases negates : operator = "$not" <;> simp [negates]

theorem meets_operator {found : Option Value} {operator : String} (marked : isMarked operator)
    (other : operator ≠ "$not") (operand : Value) :
    database.meets found (.map [(operator, operand)]) =
      database.demanded found operator operand := by
  rw [meets_marked found marked, if_neg other]

theorem meets_not (found : Option Value) (demand : Value) :
    database.meets found (.map [("$not", demand)]) = (database.meets found demand).map not := by
  rw [meets_marked found (by decide), if_pos rfl]

end Match

section Expression

theorem evaluate_text (content : String) :
    database.evaluate document (.text content) = operand document content := rfl

/-- A single field with a marked name is an operator with its argument. -/
theorem evaluate_marked {name : String} (marked : isMarked name) (argument : Value) :
    database.evaluate document (.map [(name, argument)]) = database.apply document name argument :=
  if_pos marked

theorem apply_and (items : List Value) : database.apply document "$and" (.list items) = (do
    return some (.bool ((← database.evaluateEach document items).all Value.truth))) := rfl

theorem apply_or (items : List Value) : database.apply document "$or" (.list items) = (do
    return some (.bool ((← database.evaluateEach document items).any Value.truth))) := rfl

theorem apply_not (item : Value) : database.apply document "$not" (.list [item]) = (do
    return some (.bool (!Value.truth (← database.evaluate document item)))) := rfl

theorem evaluate_column {column : String} (path : isFieldPath column) :
    database.evaluate document (Term.column column).data = some (document.at? column) := by
  have characters : (Term.path column).toList = '$' :: column.toList := by
    simp [Term.path]
  obtain ⟨character, rest, begins, other⟩ := begins_of_isFieldPath path
  rw [Term.column, Term.text, Term.data_constant]
  simp only [evaluate_text, operand, characters, String.ofList_toList]
  rw [if_neg (by simp [begins, other])]

theorem evaluate_scalar {value : Value} (scalar : value.isScalar)
    (plain : ∀ content, value = .text content → isMarked content = false) :
    database.evaluate document value = some (some value) := by
  cases value with
  | text content =>
    have unmarked := plain content rfl
    rw [evaluate_text, operand]
    split
    · rename_i same
      simp [isMarked, same] at unmarked
    · rfl
  | list items => cases scalar
  | map fields => cases scalar
  | _ => rfl

theorem evaluate_literal {value : Value} (scalar : value.isScalar) :
    database.evaluate document (Term.literal value).data = some (some value) := by
  unfold Term.literal
  split
  · split
    · exact evaluate_marked (by decide) (.text _)
    · rename_i content unmarked
      refine evaluate_scalar scalar fun other same => ?_
      cases same
      simpa [isMarked] using unmarked
  · rename_i other
    exact evaluate_scalar scalar fun content same => absurd same (other content)

theorem evaluate_comparison {name : String} {test : Ordering → Bool} {first second : Value}
    {found other : Option Value} (named : comparison? name = some test)
    (left : database.evaluate document first = some found)
    (right : database.evaluate document second = some other) :
    database.evaluate document (.map [(name, .list [first, second])]) =
      some (some (.bool (test (database.compare found other)))) := by
  have compared (marked : isMarked name)
      (applied : database.apply document name (.list [first, second]) = (do
        let found ← database.evaluate document first
        let other ← database.evaluate document second
        return some (.bool (test (database.compare found other))))) :
      database.evaluate document (.map [(name, .list [first, second])]) =
        some (some (.bool (test (database.compare found other)))) := by
    rw [evaluate_marked marked, applied, left, right]
    rfl
  unfold comparison? at named
  split at named <;> cases named <;> exact compared (by decide) rfl

theorem truth_bool : (Value.truth ∘ fun verdict => some (Value.bool verdict)) = id := rfl

theorem evaluate_and {items : List Value} {verdicts : List Bool}
    (each : database.evaluateEach document items =
      some (verdicts.map fun verdict => some (.bool verdict))) :
    database.evaluate document (.map [("$and", .list items)]) =
      some (some (.bool (verdicts.all id))) := by
  rw [evaluate_marked (by decide), apply_and]
  simp [each, truth_bool]

theorem evaluate_or {items : List Value} {verdicts : List Bool}
    (each : database.evaluateEach document items =
      some (verdicts.map fun verdict => some (.bool verdict))) :
    database.evaluate document (.map [("$or", .list items)]) =
      some (some (.bool (verdicts.any id))) := by
  rw [evaluate_marked (by decide), apply_or]
  simp [each, truth_bool]

theorem evaluate_not {item : Value} {truth : Bool}
    (comes : database.evaluate document item = some (some (.bool truth))) :
    database.evaluate document (.map [("$not", .list [item])]) = some (some (.bool !truth)) := by
  rw [evaluate_marked (by decide), apply_not, comes]
  rfl

end Expression

end Lemmas

end Database

end StepQuery
