import StepQuery.Proofs.Attempt
import StepQuery.Proofs.Condition.Evaluation
import StepQuery.Query.Operation

/-!
What a server refuses by its form alone.  Wherever a match document combines conditions there must be
some, and wherever an expression switches there must be branches; what stands under `$literal` is not
looked at.  Terms that are built of accepted ones are accepted, and the terms of formulas and dates
always are.
-/

namespace StepQuery

/-- What a server looks at in the objects that it is sent: which entries it takes, and under which
names it does not look. -/
structure Grammar where
  takes : String → Value → Bool
  protects : String → Bool

namespace Value

mutual

/-- Whether every entry of every object in a value is taken, as deep as a server looks. -/
def conforms (grammar : Grammar) : Value → Bool
  | .list items => conformEach grammar items
  | .map fields => conformFields grammar fields
  | _ => true

def conformEach (grammar : Grammar) : List Value → Bool
  | [] => true
  | item :: rest => conforms grammar item && conformEach grammar rest

def conformFields (grammar : Grammar) : List (String × Value) → Bool
  | [] => true
  | (name, item) :: rest =>
    grammar.takes name item && (grammar.protects name || conforms grammar item) &&
      conformFields grammar rest

end

def isEmptyList : Value → Bool
  | .list [] => true
  | _ => false

/-- Whether an entry, if it is a `$switch`, is no switch without branches. -/
def hasBranches : String → Value → Bool
  | "$switch", .map fields => !(Fields.get? fields "branches").any isEmptyList
  | _, _ => true

/-- Whether an entry, if it is a conjunction or a disjunction, is no empty one. -/
def hasParts (name : String) (argument : Value) : Bool :=
  !((name == "$and" || name == "$or") && argument.isEmptyList)

end Value

namespace Grammar

/-- Expressions, in which nothing under `$literal` is read. -/
def expression : Grammar := ⟨Value.hasBranches, (· == "$literal")⟩

/-- Match documents. -/
def demand : Grammar :=
  ⟨fun name argument => Value.hasParts name argument && Value.hasBranches name argument,
    fun _ => false⟩

end Grammar

namespace Term

/-- Whether an expression is accepted: none of its switches is without branches. -/
def isAccepted (term : Term) : Bool := term.data.conforms .expression

end Term

namespace Value

variable {grammar : Grammar}

theorem conformEach_eq_all (items : List Value) :
    conformEach grammar items = items.all (conforms grammar) := by
  induction items with
  | nil => rw [conformEach, List.all_nil]
  | cons item rest inductionHypothesis => rw [conformEach, inductionHypothesis, List.all_cons]

theorem conformFields_eq_all (fields : List (String × Value)) :
    conformFields grammar fields = fields.all fun field =>
      grammar.takes field.1 field.2 && (grammar.protects field.1 || conforms grammar field.2) := by
  induction fields with
  | nil => rw [conformFields, List.all_nil]
  | cons field rest inductionHypothesis => rw [conformFields, inductionHypothesis, List.all_cons]

theorem hasBranches_of_ne {name : String} (other : name ≠ "$switch") (argument : Value) :
    hasBranches name argument = true := by
  unfold hasBranches
  split
  · exact absurd rfl other
  · rfl

@[simp]
theorem hasBranches_list (name : String) (items : List Value) :
    hasBranches name (.list items) = true := by
  unfold hasBranches
  split
  next same => cases same
  next => rfl

theorem hasBranches_entry {operator : String} (other : operator ≠ "branches") (name : String)
    (operand : Value) : hasBranches name (.map [(operator, operand)]) = true := by
  unfold hasBranches
  split
  next same =>
    cases same
    simp [Fields.get?_cons, other]
  next => rfl

@[simp]
theorem hasBranches_column (name column : String) :
    hasBranches name (Term.column column).data = true := by
  unfold hasBranches
  split
  next same => cases same
  next => rfl

theorem conforms_entry (grammar : Grammar) (name : String) (item : Value) :
    conforms grammar (.map [(name, item)]) =
      (grammar.takes name item && (grammar.protects name || item.conforms grammar)) := by
  rw [conforms, conformFields_eq_all, List.all_cons, List.all_nil, Bool.and_true]

/-- An operator under a column is accepted with its operand, unless it is one that combines. -/
theorem conforms_demand {operator : String} (column : String) (operand : Value)
    (plain : operator ∉ ["$and", "$or", "$switch", "branches"]) :
    conforms .demand (.map [(column, .map [(operator, operand)])]) = operand.conforms .demand := by
  simp only [List.mem_cons, List.not_mem_nil, or_false, not_or] at plain
  simp [conforms_entry, Grammar.demand, hasBranches_entry, hasParts, isEmptyList,
    hasBranches_of_ne, plain]

end Value

namespace Term

@[simp]
theorem isAccepted_constant (value : Value) :
    (constant value).isAccepted = value.conforms .expression := by
  rw [isAccepted, data_constant]

@[simp]
theorem isAccepted_int (number : Int) : (int number).isAccepted = true := rfl

@[simp]
theorem isAccepted_text (content : String) : (text content).isAccepted = true := rfl

@[simp]
theorem isAccepted_column (name : String) : (column name).isAccepted = true := rfl

@[simp]
theorem isAccepted_null : null.isAccepted = true := rfl

@[simp]
theorem isAccepted_root : root.isAccepted = true := rfl

@[simp]
theorem isAccepted_array (items : List Term) : (array items).isAccepted = items.all isAccepted := by
  rw [isAccepted, data_array, Value.conforms, Value.conformEach_eq_all, dataOf_eq, List.all_map]
  rfl

theorem isAccepted_document (fields : List (String × Term)) :
    (document fields).isAccepted = fields.all fun field =>
      Value.hasBranches field.1 field.2.data && (field.1 == "$literal" || field.2.isAccepted) := by
  rw [isAccepted, data, Value.conforms, Value.conformFields_eq_all, dataOfFields_eq, List.all_map]
  rfl

@[simp]
theorem isAccepted_apply (operator : String) (argument : Term) :
    (apply operator argument).isAccepted =
      (Value.hasBranches operator argument.data &&
        (operator == "$literal" || argument.isAccepted)) := by
  rw [apply, isAccepted_document, List.all_cons, List.all_nil, Bool.and_true]

@[simp]
theorem isAccepted_call (operator : String) (arguments : List Term) :
    (call operator arguments).isAccepted =
      (operator == "$literal" || arguments.all isAccepted) := by
  rw [call, isAccepted_apply, data_array, Value.hasBranches_list, Bool.true_and, isAccepted_array]

@[simp]
theorem isAccepted_literal (value : Value) :
    (literal value).isAccepted = value.conforms .expression := by
  unfold literal
  split
  · split
    · rw [isAccepted_apply]
      rfl
    · rfl
  · rfl

@[simp]
theorem isAccepted_cond (test consequent alternative : Term) :
    (cond test consequent alternative).isAccepted =
      (test.isAccepted && consequent.isAccepted && alternative.isAccepted) := by
  simp [cond, Bool.and_assoc]

theorem isAccepted_fields {entries : List (String × Term)}
    (distinct : (entries.map (·.1)).Nodup) :
    (Term.fields entries).isAccepted = entries.all fun field =>
      Value.hasBranches field.1 field.2.data && (field.1 == "$literal" || field.2.isAccepted) := by
  rw [Term.fields, isAccepted_document]
  exact (Fields.perm_ofList distinct).all_eq

@[simp]
theorem isAccepted_branch (test result : Term) :
    (branch test result).isAccepted = (test.isAccepted && result.isAccepted) := by
  rw [branch, isAccepted_fields (by simp)]
  simp [Value.hasBranches_of_ne]

@[simp]
theorem isAccepted_switch (branches : List Term) (otherwise : Term) :
    (switch branches otherwise).isAccepted =
      (!branches.isEmpty && branches.all isAccepted && otherwise.isAccepted) := by
  have several : Value.hasBranches "$switch"
      (Term.fields [("branches", .array branches), ("default", otherwise)]).data =
        !branches.isEmpty := by
    rw [data_pair (by decide), data_array, dataOf_eq]
    cases branches <;> simp [Value.hasBranches, Fields.get?_cons, Value.isEmptyList]
  rw [switch, isAccepted_apply, several, isAccepted_fields (by simp)]
  simp [Value.hasBranches_of_ne, Bool.and_assoc]

theorem conforms_array (grammar : Grammar) (items : List Term) :
    (array items).data.conforms grammar = items.all fun item => item.data.conforms grammar := by
  rw [data_array, Value.conforms, Value.conformEach_eq_all, dataOf_eq, List.all_map]
  rfl

end Term

theorem Formula.isAccepted_toTerm (formula : Formula) : formula.toTerm.isAccepted := by
  induction formula with
  | number span literal => cases literal <;> rfl
  | text span value => exact (Term.isAccepted_literal _).trans rfl
  | column span name => rfl
  | negate span operand inductionHypothesis =>
    rw [toTerm]
    simpa using inductionHypothesis
  | binary span operator left right leftAccepted rightAccepted =>
    rw [toTerm]
    cases operator <;> simp [operation, leftAccepted, rightAccepted]

/-- Whether a value is accepted where an expression is expected. -/
def Value.isAccepted (value : Value) : Bool := value.conforms .expression

theorem Value.isAccepted_formulaTerm {value : Value} {term : Term}
    (read : value.formulaTerm = .ok term) : term.isAccepted = value.isAccepted := by
  unfold formulaTerm at read
  split at read
  next written =>
    obtain ⟨formula, _, read⟩ := Attempt.bind_eq_ok.mp read
    cases read
    exact formula.isAccepted_toTerm
  next => cases read
  next =>
    cases read
    exact Term.isAccepted_constant _

namespace DatePart

@[simp]
theorem isAccepted_dateFromParts (year month day : Term) :
    (dateFromParts year month day).isAccepted =
      (year.isAccepted && month.isAccepted && day.isAccepted) := by
  rw [dateFromParts, Term.isAccepted_apply, Term.isAccepted_fields (by simp)]
  simp [Value.hasBranches_of_ne, Bool.and_assoc]

theorem isAccepted_ofDate (part : DatePart) (column : String) :
    (part.ofDate (Term.column column)).isAccepted := by
  have quarter : (quarterOf (Term.column column)).isAccepted := by
    simp [quarterOf, monthOf, Value.hasBranches_of_ne]
  have chosen (first second third fourth : Int) :
      (byQuarter (Term.column column) first second third fourth).isAccepted := by
    simp [byQuarter, equals, quarter]
  cases part <;> simp [ofDate, yearOf, monthOf, minusOne, minusDays, midnight, equals, yearUnless,
    firstDayOfWeekOf, firstDayOfIsoWeekOf, previousMonthOf, quarter, chosen,
    Value.hasBranches_of_ne]

end DatePart

end StepQuery
