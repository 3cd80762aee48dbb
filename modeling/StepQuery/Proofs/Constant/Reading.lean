import StepQuery.Proofs.Condition.Evaluation
import StepQuery.Proofs.Fields
import StepQuery.Query.Stage

/-!
How a server reads the data that it is sent.  Under a field of a match document, an object with a
marked name is a list of operators, and all else is a value to compare with.  In an expression a marked
text is a path and an object with a marked name is an operator, at every depth, unless it stands under
`$literal`.
What paths reach and what operators do is left to the server, and no shape of row is assumed.

A value without marks is read as itself, and so is one under `$literal`.  Below the readings stand the
forms that queries are written in, each with what it comes to.
-/

namespace StepQuery

/-- What a server decides on its own: what a path reaches in a row, whether what is held passes an
operator of a match document, and what an operator of an expression makes of its arguments. -/
structure Server (Row : Type) where
  reach : Row → String → Option Value
  passes : (operator : String) → (held : Option Value) → (operand : Value) → Bool
  operate : (operator : String) → (arguments : List (Option Value)) → Option Value

namespace Value

/-- Whether a value under a field of a match document is read as operators. -/
def isOperators : Value → Bool
  | .map fields => fields.any fun field => isMarked field.1
  | _ => false

mutual

/-- Whether no text and no name in a value is marked, at any depth. -/
def isInert : Value → Bool
  | .text content => !isMarked content
  | .list items => areInert items
  | .map fields => areInertFields fields
  | _ => true

def areInert : List Value → Bool
  | [] => true
  | item :: rest => isInert item && areInert rest

def areInertFields : List (String × Value) → Bool
  | [] => true
  | (name, item) :: rest => !isMarked name && isInert item && areInertFields rest

end

/-- Whether `Term.literal` keeps a value what it is: it takes the meaning from a mark at the head of a
text, and looks into nothing else. -/
def isLiteral : Value → Bool
  | .text _ => true
  | value => value.isInert

/-- Whether a field is missing, or null. -/
def isMissing : Option Value → Bool
  | none | some .null => true
  | _ => false

/-- What is found in a field, or a filling where it is missing. -/
def filled (filling held : Option Value) : Option Value := if isMissing held then filling else held

end Value

namespace Server

variable {Row : Type} (server : Server Row) (row : Row)

section Match

mutual

/-- Whether what is held meets the demand that stands under a field. -/
def meets (held : Option Value) : Value → Bool
  | .map fields =>
    if fields.any fun field => isMarked field.1 then meetsAll held fields
    else server.passes "$eq" held (.map fields)
  | value => server.passes "$eq" held value

def meetsAll (held : Option Value) : List (String × Value) → Bool
  | [] => true
  | (operator, operand) :: rest =>
    (if operator == "$not" then !meets held operand else server.passes operator held operand) &&
      meetsAll held rest

end

mutual

/-- Whether a row satisfies a match document. -/
def satisfies : Value → Bool
  | .map fields => satisfiesAll fields
  | _ => false

def satisfiesAll : List (String × Value) → Bool
  | [] => true
  | (name, demand) :: rest => satisfiesField name demand && satisfiesAll rest

def satisfiesField : String → Value → Bool
  | "$and", .list items => (satisfiesEach items).all id
  | "$or", .list items => (satisfiesEach items).any id
  | name, demand => server.meets (server.reach row name) demand

def satisfiesEach : List Value → List Bool
  | [] => []
  | item :: rest => satisfies item :: satisfiesEach rest

end

section Lemmas

variable {server} {row}

theorem satisfies_entry {column : String} (unmarked : isMarked column = false) (demand : Value) :
    server.satisfies row (.map [(column, demand)]) =
      server.meets (server.reach row column) demand := by
  have entry : server.satisfiesField row column demand =
      server.meets (server.reach row column) demand := by
    unfold satisfiesField
    split
    · cases unmarked
    · cases unmarked
    · rfl
  exact (Bool.and_true _).trans entry

theorem satisfies_and (items : List Value) :
    server.satisfies row (.map [("$and", .list items)]) = (server.satisfiesEach row items).all id :=
  Bool.and_true _

theorem satisfies_or (items : List Value) :
    server.satisfies row (.map [("$or", .list items)]) = (server.satisfiesEach row items).any id :=
  Bool.and_true _

theorem meets_apply {operator : String} (marked : isMarked operator) (other : operator ≠ "$not")
    (held : Option Value) (operand : Term) :
    server.meets held (Term.apply operator operand).data =
      server.passes operator held operand.data := by
  simp [meets, meetsAll, marked, other]

theorem meets_not (held : Option Value) (demand : Term) :
    server.meets held (Term.apply "$not" demand).data = !server.meets held demand.data := by
  have marked : isMarked "$not" := by decide
  simp [meets, meetsAll, marked]

theorem meets_of_not_isOperators {value : Value} (plain : value.isOperators = false)
    (held : Option Value) : server.meets held value = server.passes "$eq" held value := by
  cases value with
  | map fields =>
    rw [Value.isOperators] at plain
    rw [meets, plain]
    rfl
  | _ => rw [meets]; nofun

end Lemmas

end Match

section Expression

/-- A marked text is a path, and any other is itself. -/
def readText (content : String) : Option Value :=
  match content.toList with
  | '$' :: path => server.reach row (String.ofList path)
  | _ => some (.text content)

mutual

/-- What an expression comes to on a row: `none` if it is refused, and nothing where a path reaches
nothing. -/
def evaluate : Value → Option (Option Value)
  | .text content => some (server.readText row content)
  | .list items => do return some (.list ((← evaluateEach items).map (·.getD .null)))
  | .map fields =>
    if fields.any fun field => isMarked field.1 then evaluateOperator fields
    else do return some (.map (← evaluateFields fields))
  | scalar => some (some scalar)

def evaluateEach : List Value → Option (List (Option Value))
  | [] => some []
  | item :: rest => do
    let first ← evaluate item
    let others ← evaluateEach rest
    return first :: others

/-- The fields of a new object; one that comes to nothing is left out. -/
def evaluateFields : List (String × Value) → Option (List (String × Value))
  | [] => some []
  | (name, item) :: rest => do
    let first ← evaluate item
    let others ← evaluateFields rest
    return (first.map fun value => (name, value)).toList ++ others

/-- An operator stands alone in its object. -/
def evaluateOperator : List (String × Value) → Option (Option Value)
  | [(name, argument)] => apply (evaluate argument) name argument
  | _ => none

/-- An operator on its argument, which most of them take as it is read. -/
def apply (read : Option (Option Value)) : String → Value → Option (Option Value)
  | "$literal", value => some (some value)
  | "$ifNull", .list [first, second] => do
    match ← evaluate first with
    | none | some .null => evaluate second
    | found => return found
  | "$switch", .map [("branches", .list branches), ("default", otherwise)] =>
    choose (evaluate otherwise) branches
  | "$regexMatch", .map [("input", input), ("regex", pattern)] => do
    let input ← evaluate input
    let pattern ← evaluate pattern
    return server.operate "$regexMatch" [input, pattern]
  | name, .list items => do return server.operate name (← evaluateEach items)
  | name, _ => do return server.operate name [← read]

/-- The result of the first branch whose case is true. -/
def choose (otherwise : Option (Option Value)) : List Value → Option (Option Value)
  | [] => otherwise
  | .map [("case", test), ("then", result)] :: rest => do
    if Value.truth (← evaluate test) then evaluate result else choose otherwise rest
  | _ => none

end

/-- What a column holds after stages that add fields once at most. -/
def holdsAfter (column : String) : List Stage → Option (Option Value)
  | [] => some (server.reach row column)
  | [.addFields fields] =>
    match Fields.get? fields column with
    | some term => server.evaluate row term.data
    | none => some (server.reach row column)
  | _ => none

section Inert

variable {server : Server Row} {row : Row}

theorem any_isMarked_of_areInertFields {fields : List (String × Value)}
    (inert : Value.areInertFields fields) : (fields.any fun field => isMarked field.1) = false := by
  induction fields with
  | nil => rfl
  | cons field rest inductionHypothesis =>
    obtain ⟨name, item⟩ := field
    simp only [Value.areInertFields, Bool.and_eq_true, Bool.not_eq_true'] at inert
    rw [List.any_cons, inert.1.1, inductionHypothesis inert.2, Bool.false_or]

theorem readText_of_unmarked {content : String} (unmarked : isMarked content = false) :
    server.readText row content = some (.text content) := by
  unfold readText
  split
  · rename_i path marked
    simp [isMarked, marked] at unmarked
  · rfl

theorem toList_path (column : String) : (Term.path column).toList = '$' :: column.toList := by
  rw [Term.path, String.toList_append]
  rfl

theorem readText_path (column : String) :
    server.readText row (Term.path column) = server.reach row column := by
  rw [readText, toList_path]
  simp

theorem exists_path_of_isMarked {content : String} (marked : isMarked content) :
    ∃ column, content = Term.path column := by
  obtain ⟨path, characters⟩ : ∃ path, content.toList = '$' :: path := by
    simpa [isMarked, List.head?_eq_some_iff] using marked
  refine ⟨String.ofList path, String.toList_injective ?_⟩
  rw [toList_path, String.toList_ofList, characters]

mutual

/-- A value without marks is read as itself. -/
theorem evaluate_inert : (value : Value) → value.isInert →
    server.evaluate row value = some (some value)
  | .text content, inert => by
    have unmarked : isMarked content = false := by simpa [Value.isInert] using inert
    rw [evaluate, readText_of_unmarked unmarked]
  | .list items, inert => by
    rw [Value.isInert] at inert
    rw [evaluate, evaluateEach_inert items inert]
    simp [Function.comp_def]
  | .map fields, inert => by
    rw [Value.isInert] at inert
    rw [evaluate, any_isMarked_of_areInertFields inert, evaluateFields_inert fields inert]
    rfl
  | .null, _ | .bool _, _ | .int _, _ | .uint _, _ | .single _, _ | .double _, _ | .decimal _, _
  | .bytes _, _ | .date _, _ => by simp [evaluate]

theorem evaluateEach_inert : (items : List Value) → Value.areInert items →
    server.evaluateEach row items = some (items.map some)
  | [], _ => by rw [evaluateEach, List.map_nil]
  | item :: rest, inert => by
    rw [Value.areInert, Bool.and_eq_true] at inert
    rw [evaluateEach, evaluate_inert item inert.1, evaluateEach_inert rest inert.2]
    rfl

theorem evaluateFields_inert : (fields : List (String × Value)) → Value.areInertFields fields →
    server.evaluateFields row fields = some fields
  | [], _ => by rw [evaluateFields]
  | (name, item) :: rest, inert => by
    simp only [Value.areInertFields, Bool.and_eq_true] at inert
    rw [evaluateFields, evaluate_inert item inert.1.2, evaluateFields_inert rest inert.2]
    rfl

end

end Inert

section Forms

variable {server : Server Row} {row : Row}

theorem evaluate_operator {name : String} (marked : isMarked name) (argument : Value) :
    server.evaluate row (.map [(name, argument)]) =
      server.apply row (server.evaluate row argument) name argument := by
  exact if_pos (by simpa using marked)

theorem evaluate_column (column : String) :
    server.evaluate row (Term.column column).data = some (server.reach row column) := by
  change some (server.readText row (Term.path column)) = _
  rw [readText_path]

theorem evaluate_protected (value : Value) :
    server.evaluate row (Term.apply "$literal" (.constant value)).data = some (some value) := by
  rw [Term.data_apply, evaluate_operator (by decide), Term.data_constant, apply]

theorem evaluate_call {name : String} (marked : isMarked name) (unprotected : name ≠ "$literal")
    (other : name ≠ "$ifNull") (arguments : List Term) :
    server.evaluate row (Term.call name arguments).data =
      (server.evaluateEach row (Term.dataOf arguments)).map (server.operate name) := by
  rw [Term.data_call, evaluate_operator marked, apply]
  · cases server.evaluateEach row (Term.dataOf arguments) <;> rfl
  · exact unprotected
  · exact fun first second same _ => other same

theorem evaluateEach_cons (item : Value) (rest : List Value) :
    server.evaluateEach row (item :: rest) = (server.evaluate row item).bind fun first =>
      (server.evaluateEach row rest).bind fun others => some (first :: others) := rfl

theorem evaluate_pair {name : String} (marked : isMarked name) (unprotected : name ≠ "$literal")
    (other : name ≠ "$ifNull") (column : String) (term : Term) :
    server.evaluate row (Term.call name [Term.column column, term]).data =
      (server.evaluate row term.data).map fun read =>
        server.operate name [server.reach row column, read] := by
  rw [evaluate_call marked unprotected other, Term.dataOf_cons, Term.dataOf_cons, Term.dataOf_nil,
    evaluateEach_cons, evaluateEach_cons, evaluate_column]
  cases server.evaluate row term.data <;> rfl

theorem evaluate_negated (term : Term) :
    server.evaluate row (Term.call "$not" [term]).data =
      (server.evaluate row term.data).map fun read => server.operate "$not" [read] := by
  rw [evaluate_call (by decide) (by decide) (by decide), Term.dataOf_cons, Term.dataOf_nil,
    evaluateEach_cons]
  cases server.evaluate row term.data <;> rfl

theorem evaluate_membership (column : String) (value : Value) :
    server.evaluate row (Term.call "$in"
      [Term.column column, Term.apply "$literal" (.constant value)]).data =
        some (server.operate "$in" [server.reach row column, some value]) := by
  rw [evaluate_pair (by decide) (by decide) (by decide), evaluate_protected]
  rfl

theorem evaluate_regexMatch (column : String) (pattern : Term) :
    server.evaluate row (Term.apply "$regexMatch"
      (Term.fields [("input", Term.column column), ("regex", pattern)])).data =
        (server.evaluate row pattern.data).map fun read =>
          server.operate "$regexMatch" [server.reach row column, read] := by
  rw [Term.data_apply, evaluate_operator (by decide), Term.data_pair (by decide)]
  change ((server.evaluate row (Term.column column).data).bind fun input =>
    (server.evaluate row pattern.data).bind fun read =>
      some (server.operate "$regexMatch" [input, read])) = _
  rw [evaluate_column]
  cases server.evaluate row pattern.data <;> rfl

/-- The filling is read only where something is missing. -/
theorem evaluate_ifNull_eq (column : String) (term : Term) :
    server.evaluate row (Term.call "$ifNull" [Term.column column, term]).data =
      if Value.isMissing (server.reach row column) then server.evaluate row term.data
      else some (server.reach row column) := by
  rw [Term.data_call, evaluate_operator (by decide), Term.dataOf_cons, Term.dataOf_cons,
    Term.dataOf_nil, apply, evaluate_column]
  cases server.reach row column with
  | none => rfl
  | some held => cases held <;> rfl

theorem evaluate_ifNull (column : String) {term : Term} {filling : Option Value}
    (read : server.evaluate row term.data = some filling) :
    server.evaluate row (Term.call "$ifNull" [Term.column column, term]).data =
      some (Value.filled filling (server.reach row column)) := by
  rw [evaluate_ifNull_eq, read, Value.filled]
  split <;> rfl

theorem evaluate_switch (branches : List Term) (otherwise : Term) :
    server.evaluate row (Term.switch branches otherwise).data =
      server.choose row (server.evaluate row otherwise.data) (Term.dataOf branches) := by
  rw [Term.switch, Term.data_apply, evaluate_operator (by decide), Term.data_pair (by decide),
    Term.data_array]
  rfl

theorem choose_branch (otherwise : Option (Option Value)) (test result : Term) (rest : List Value) :
    server.choose row otherwise ((Term.branch test result).data :: rest) =
      (server.evaluate row test.data).bind fun verdict =>
        if Value.truth verdict then server.evaluate row result.data
        else server.choose row otherwise rest := by
  rw [Term.branch, Term.data_pair (by decide)]
  rfl

/-- A value that `Term.literal` keeps is read as itself. -/
theorem evaluate_literal {value : Value} (kept : value.isLiteral) :
    server.evaluate row (Term.literal value).data = some (some value) := by
  unfold Term.literal
  split
  · rename_i content
    split
    · exact evaluate_protected _
    · rename_i unmarked
      have inert : (Value.text content).isInert := by
        simpa [Value.isInert, isMarked] using unmarked
      exact evaluate_inert _ inert
  · rename_i other
    have inert : value.isInert := by
      cases value with
      | text content => exact absurd rfl (other content)
      | _ => exact kept
    exact evaluate_inert _ inert

end Forms

end Expression

end Server

end StepQuery
