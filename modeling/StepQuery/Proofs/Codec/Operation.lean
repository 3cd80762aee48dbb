import StepQuery.Proofs.Codec.Condition

/-!
Operations are read back from what is written for them, kind by kind.  A list that is left out when
it is empty comes back as absent.
-/

namespace StepQuery

namespace Record

theorem value_denoted (json : Json) {held : Value} (denoted : held.Denoted) :
    (value json held).1.Denoted := by
  unfold value
  split
  next found => exact Value.denoted_of_ofJson? found
  next => exact denoted

theorem whole_bounded (json : Json) {held : Int} (bounded : Bounded held) :
    Bounded (whole json held).1 := by
  unfold whole
  split
  · split
    · split
      next inside =>
        rw [Bool.and_eq_true, decide_eq_true_eq, decide_eq_true_eq] at inside
        exact inside
      next => exact bounded
    · exact bounded
  · exact bounded
  · exact bounded

/-- Two values of documents. -/
abbrev PairDenoted (pair : Value × Value) : Prop := pair.1.Denoted ∧ pair.2.Denoted

theorem pair_denoted (json : Json) {held : Value × Value} (denoted : PairDenoted held) :
    PairDenoted (pair .null value json held).1 := by
  unfold pair
  split
  · exact denoted
  · exact ⟨.null, .null⟩
  · exact ⟨value_denoted _ denoted.1, .null⟩
  · exact ⟨value_denoted _ denoted.1, value_denoted _ denoted.2⟩
  · exact denoted

theorem items_keep {α : Type} {Holds : α → Prop} {blank : α} {store : Store α}
    (empty : Holds blank) (keeps : ∀ json held, Holds held → Holds (store json held).1)
    (found : List Json) {held : List α} (all : ∀ item ∈ held, Holds item) :
    ∀ item ∈ (items blank store found held).1, Holds item := by
  induction found generalizing held with
  | nil => simp [items]
  | cons json rest inductionHypothesis =>
    have first : Holds (held.headD blank) := by
      cases held with
      | nil => exact empty
      | cons item others => exact all item List.mem_cons_self
    have others : ∀ item ∈ held.tail, Holds item :=
      fun item within => all item (List.mem_of_mem_tail within)
    exact List.forall_mem_cons.mpr ⟨keeps json _ first, inductionHypothesis others⟩

theorem pairs_denoted (json : Json) {held : Option (List (Value × Value))}
    (denoted : ∀ pair ∈ held.getD [], PairDenoted pair) :
    ∀ found ∈ (list (.null, .null) (pair .null value) json held).1.getD [], PairDenoted found := by
  unfold list
  split
  · simp
  · exact items_keep ⟨.null, .null⟩ (fun json _ => pair_denoted json) _ denoted
  · exact denoted

end Record

namespace Operation

/-- The operations that documents write: their values, conditions and branches are such, and their
indices are numbers of 64 bits. -/
def Denoted : Operation → Prop
  | .filter condition => condition.Denoted
  | .formula _ expression => expression.Denoted
  | .top _ _ _ limit => limit.Denoted
  | .fillna _ value => value.Denoted
  | .replace _ pairs => ∀ pair ∈ pairs.getD [], Record.PairDenoted pair
  | .ifThenElse _ branch => branch.Denoted
  | .text _ content => content.Denoted
  | .substring _ first last _ => Record.Bounded first ∧ Record.Bounded last
  | .custom query => query.Denoted
  | _ => True

/-! ### Reading -/

/-- A field takes in any member and leaves an operation that documents write. -/
def FieldKeeps (field : OperationField) : Prop :=
  ∀ json next misfit, field.2 json = .ok (next, misfit) → Denoted next

@[simp]
theorem fieldKeeps_field {α : Type} {name : String} {store : Record.Store α} {held : α}
    {put : α → Operation} :
    FieldKeeps (field name store held put) ↔ ∀ json, Denoted (put (store json held).1) := by
  constructor
  · exact fun keeps json => keeps json _ _ rfl
  · intro keeps json next misfit taken
    cases taken
    exact keeps json

theorem fields_keep {operation : Operation} (denoted : Denoted operation) :
    ∀ field ∈ fields operation, FieldKeeps field := by
  cases operation <;>
    simp only [fields, List.forall_mem_cons, List.not_mem_nil, false_implies, implies_true,
      and_true, fieldKeeps_field, Denoted]
  case formula => exact ⟨fun _ => denoted, fun json => Record.value_denoted json denoted⟩
  case top =>
    exact ⟨fun _ => denoted, fun _ => denoted, fun _ => denoted,
      fun json => Record.value_denoted json denoted⟩
  case fillna => exact ⟨fun _ => denoted, fun json => Record.value_denoted json denoted⟩
  case replace => exact ⟨fun _ => denoted, fun json => Record.pairs_denoted json denoted⟩
  case text => exact ⟨fun _ => denoted, fun json => Record.value_denoted json denoted⟩
  case substring =>
    exact ⟨fun _ => denoted, fun json => ⟨Record.whole_bounded json denoted.1, denoted.2⟩,
      fun json => ⟨denoted.1, Record.whole_bounded json denoted.2⟩, fun _ => denoted⟩
  case custom => exact fun json => Record.value_denoted json denoted

theorem denoted_of_read {members : List (String × Json)} {blank operation : Operation}
    (start : Denoted blank) (read : Record.read fields members blank none = .ok operation) :
    Denoted operation :=
  Record.read_keeps Denoted
    (fun _ denoted field declared _ _ next misfit taken =>
      fields_keep denoted field declared _ next misfit taken) start read

theorem denoted_of_ofMembers {members : List (String × Json)} {blank operation : Operation}
    (start : Denoted blank) (read : ofMembers members blank = .ok operation) :
    Denoted operation := by
  unfold ofMembers at read
  split at read
  next =>
    obtain ⟨condition, gathered, read⟩ := Attempt.bind_eq_ok.mp read
    obtain ⟨found, reads, read⟩ := Attempt.bind_eq_ok.mp read
    cases read
    exact Condition.denoted_of_ofJson reads
  next =>
    obtain ⟨parts, gathered, read⟩ := Attempt.bind_eq_ok.mp read
    obtain ⟨branch, reads, read⟩ := Attempt.bind_eq_ok.mp read
    cases read
    exact Branch.denoted_of_ofParts (Branch.sound_of_readParts Branch.stepFields_keeps
      (Branch.sound_membersOf members) gathered) reads
  next => exact denoted_of_read start read

/-- With all parameters left out, nothing is in the way. -/
theorem denoted_of_mem_blanks : ∀ operation ∈ blanks, Denoted operation := by
  have empty : Value.Denoted .null := .null
  simp only [blanks, List.forall_mem_cons, List.not_mem_nil, false_implies, implies_true, and_true,
    Denoted, empty, true_and]
  refine ⟨.absent, by simp, .last .absent .null .null id, by decide⟩

end Operation

/-! ### Writing -/

/-- The list with its absence for its emptiness. -/
def ColumnList.tidied : ColumnList → ColumnList
  | some [] => none
  | columns => columns

namespace Json.Plain

attribute [simp] null bool string

@[simp]
theorem array_iff {items : List Json} : Plain (.array items) ↔ ∀ item ∈ items, Plain item :=
  ⟨fun plain => by cases plain; assumption, .array⟩

@[simp]
theorem object_iff {members : List (String × Json)} :
    Plain (.object members) ↔ ∀ member ∈ members, Plain member.2 :=
  ⟨fun plain => by cases plain; assumption, .object⟩

@[simp]
theorem texts (values : List String) : Plain (Json.texts values) := by
  simp [Json.texts]

@[simp]
theorem columnList (columns : ColumnList) : Plain columns.toJson := by
  cases columns <;> simp [ColumnList.toJson]

@[simp]
theorem columnPairs (pairs : ColumnPairs) : Plain pairs.toJson := by
  cases pairs with
  | none => exact .null
  | some found => exact .array (List.forall_mem_map.mpr fun pair _ => texts [pair.1, pair.2])

@[simp]
theorem integerText (n : Int) : Plain (.number (Decimal.integerText n)) := by
  obtain ⟨numeral, wellFormed, text⟩ := Decimal.integerText_numeral n
  exact .number wellFormed text

theorem listJson {α : Type} {write : α → Json} (plain : ∀ value, Plain (write value))
    (values : Option (List α)) : Plain (Operation.listJson write values) := by
  cases values <;> simp [Operation.listJson, plain]

end Json.Plain

namespace Operation

/-- The operation as it comes back: the lists that are left out when they are empty are absent. -/
def tidied : Operation → Operation
  | .top groups rankOn order limit => .top groups.tidied rankOn order limit
  | .dateExtract column parts newColumns => .dateExtract column parts newColumns.tidied
  | .argmax column groups => .argmax column groups.tidied
  | .argmin column groups => .argmin column groups.tidied
  | .percentage column group newColumn => .percentage column group.tidied newColumn
  | .cumSum pairs reference groups => .cumSum pairs reference groups.tidied
  | operation => operation

/-- The parameters of an operation, in ascending order, are read into the blank operation of its
kind. -/
structure Writes (operation : Operation) (members : List (String × Json)) : Prop where
  written : operation.toMembers? = some members
  plain : ∀ member ∈ members, member.2.Plain
  unnamed : ∀ member ∈ members, member.1 ≠ "name"
  reads : ∀ blank, Step.blank? operation.name = some (.transform blank) →
    ofMembers (Fields.ofList members) blank = .ok operation.tidied

/-- An optional list is left out, or comes back as it was. -/
theorem optionalTexts_cases (name : String) (columns : ColumnList) :
    optionalTexts name columns = [] ∧ columns.tidied = none ∨
      optionalTexts name columns = [(name, columns.toJson)] ∧ columns.tidied = columns := by
  rcases columns with _ | (_ | ⟨first, rest⟩)
  · exact .inl ⟨rfl, rfl⟩
  · exact .inl ⟨rfl, rfl⟩
  · exact .inr ⟨rfl, rfl⟩

/-- A list that comes last is optional when the operation is read as well without it. -/
theorem writes_of_optionalTexts {operation : Operation} (others : List (String × Json))
    (name : String) (columns : ColumnList)
    (written : operation.toMembers? = some (others ++ optionalTexts name columns))
    (plain : ∀ member ∈ others, member.2.Plain) (unnamed : ∀ member ∈ others, member.1 ≠ "name")
    (different : name ≠ "name")
    (readsWithout : columns.tidied = none → ∀ blank,
      Step.blank? operation.name = some (.transform blank) →
        ofMembers (Fields.ofList others) blank = .ok operation.tidied)
    (readsWith : columns.tidied = columns → ∀ blank,
      Step.blank? operation.name = some (.transform blank) →
        ofMembers (Fields.ofList (others ++ [(name, columns.toJson)])) blank =
          .ok operation.tidied) :
    ∃ members, Writes operation members := by
  rcases optionalTexts_cases name columns with ⟨absent, tidy⟩ | ⟨present, tidy⟩
  · rw [absent, List.append_nil] at written
    exact ⟨others, written, plain, unnamed, readsWithout tidy⟩
  · rw [present] at written
    refine ⟨_, written, ?_, ?_, readsWith tidy⟩
    · exact List.forall_mem_append.mpr ⟨plain, by simp⟩
    · exact List.forall_mem_append.mpr ⟨unnamed, by simp [different]⟩

/-- An optional text is left out when it is what its absence means. -/
theorem optionalText_cases (name value : String) :
    optionalText name value = [] ∧ value = "" ∨
      optionalText name value = [(name, .string value)] := by
  unfold optionalText
  split
  next empty => exact .inl ⟨rfl, eq_of_beq empty⟩
  next => exact .inr rfl

section Kinds

-- The parameters of a kind have fixed names, so that sorting and reading them is mere evaluation.
attribute [local simp] Fields.ofList Fields.set Record.read Record.field? fields field ofMembers
  tidied toMembers?
attribute [-simp] String.lt_iff_ltb

variable (column newColumn : String) (columns : ColumnList)

theorem writes_filter {condition : Condition} (denoted : condition.Denoted) :
    ∃ members, Writes (.filter condition) members := by
  obtain ⟨json, written, plain, reads⟩ := denoted.writes
  refine ⟨[("condition", json)], by simp [written], by simp [plain], by simp, ?_⟩
  rintro _ ⟨⟩
  simp [filterFields, reads]

theorem writes_formula {expression : Value} (denoted : expression.Denoted) :
    ∃ members, Writes (.formula newColumn expression) members := by
  obtain ⟨json, writes⟩ := denoted.writes
  refine ⟨[("new_column", .string newColumn), ("formula", json)], by simp [writes.1],
    by simp [writes.2.1], by simp, ?_⟩
  rintro _ ⟨⟩
  simp [Record.value_of_writes writes]

theorem writes_fillna {value : Value} (denoted : value.Denoted) :
    ∃ members, Writes (.fillna columns value) members := by
  obtain ⟨json, writes⟩ := denoted.writes
  refine ⟨[("columns", columns.toJson), ("value", json)], by simp [writes.1],
    by simp [writes.2.1], by simp, ?_⟩
  rintro _ ⟨⟩
  simp [Record.value_of_writes writes]

theorem writes_text {content : Value} (denoted : content.Denoted) :
    ∃ members, Writes (.text newColumn content) members := by
  obtain ⟨json, writes⟩ := denoted.writes
  refine ⟨[("new_column", .string newColumn), ("text", json)], by simp [writes.1],
    by simp [writes.2.1], by simp, ?_⟩
  rintro _ ⟨⟩
  simp [Record.value_of_writes writes]

theorem writes_custom {query : Value} (denoted : query.Denoted) :
    ∃ members, Writes (.custom query) members := by
  obtain ⟨json, writes⟩ := denoted.writes
  refine ⟨[("query", json)], by simp [writes.1], by simp [writes.2.1], by simp, ?_⟩
  rintro _ ⟨⟩
  simp [Record.value_of_writes writes]

theorem writes_top (groups : ColumnList) (rankOn order : String) {limit : Value}
    (denoted : limit.Denoted) : ∃ members, Writes (.top groups rankOn order limit) members := by
  obtain ⟨json, writes⟩ := denoted.writes
  have written : toMembers? (.top groups rankOn order limit) =
      some (optionalTexts "groups" groups ++ [("rank_on", .string rankOn),
        ("sort", .string order), ("limit", json)]) := by
    simp [writes.1]
  rcases optionalTexts_cases "groups" groups with ⟨absent, tidy⟩ | ⟨present, tidy⟩
  · refine ⟨_, absent ▸ written, by simp [writes.2.1], by simp, ?_⟩
    rintro _ ⟨⟩
    simp [Record.value_of_writes writes, tidy]
  · refine ⟨_, present ▸ written, by simp [writes.2.1], by simp, ?_⟩
    rintro _ ⟨⟩
    simp [Record.value_of_writes writes, tidy]

/-- Pairs of values are written as lists of two. -/
theorem pairItems_written {pairs : List (Value × Value)}
    (denoted : ∀ pair ∈ pairs, Record.PairDenoted pair) :
    ∃ written, pairItems? pairs = some written ∧ (∀ json ∈ written, json.Plain) ∧
      ∀ held, Record.items (.null, .null) (Record.pair .null Record.value) written held =
        (pairs, none) := by
  induction pairs with
  | nil => exact ⟨[], rfl, by simp, fun _ => rfl⟩
  | cons pair rest inductionHypothesis =>
    obtain ⟨⟨first, second⟩, others⟩ := List.forall_mem_cons.mp denoted
    obtain ⟨old, writesOld⟩ := first.writes
    obtain ⟨new, writesNew⟩ := second.writes
    obtain ⟨written, writesAll, plains, readsAll⟩ := inductionHypothesis others
    refine ⟨.array [old, new] :: written, ?_, ?_, ?_⟩
    · simp [pairItems?, writesOld.1, writesNew.1, writesAll]
    · exact List.forall_mem_cons.mpr ⟨by simp [writesOld.2.1, writesNew.2.1], plains⟩
    · intro held
      simp [Record.items, Record.pair, Record.value_of_writes writesOld,
        Record.value_of_writes writesNew, readsAll]

theorem writes_replace {pairs : Option (List (Value × Value))}
    (denoted : ∀ pair ∈ pairs.getD [], Record.PairDenoted pair) :
    ∃ members, Writes (.replace column pairs) members := by
  cases pairs with
  | none =>
    refine ⟨[("search_column", .string column), ("to_replace", .null)], by simp,
      by simp, by simp, ?_⟩
    rintro _ ⟨⟩
    simp [Record.list]
  | some pairs =>
    rw [Option.getD_some] at denoted
    obtain ⟨written, writes, plains, reads⟩ := pairItems_written denoted
    refine ⟨[("search_column", .string column), ("to_replace", .array written)],
      by simp [writes], by simpa using plains, by simp, ?_⟩
    rintro _ ⟨⟩
    simp [Record.list, reads]

theorem writes_ifThenElse {branch : Branch} (denoted : branch.Denoted) :
    ∃ members, Writes (.ifThenElse newColumn branch) members := by
  obtain ⟨test, consequent, alternative, writes⟩ := denoted.writes
  refine ⟨[("new_column", .string newColumn), ("if", test), ("then", consequent),
    ("else", alternative)], by simp [writes.written], by simp [writes.plain], by simp, ?_⟩
  rintro _ ⟨⟩
  have gathered : Branch.readParts Branch.stepFields (Branch.membersOf (Fields.ofList
      [("new_column", .string newColumn), ("if", test), ("then", consequent),
        ("else", alternative)])) =
      .ok ⟨newColumn, test, consequent, alternative, Branch.continuation? alternative⟩ := by
    simp [Branch.membersOf_cons, Branch.membersOf, Branch.readParts, Branch.stepFields,
      Branch.partFields]
  rw [ofMembers, gathered, Attempt.ok_bind, writes.reads newColumn]
  rfl

theorem writes_dateExtract (parts newColumns : ColumnList) :
    ∃ members, Writes (.dateExtract column parts newColumns) members := by
  apply writes_of_optionalTexts [("column", .string column), ("date_info", parts.toJson)]
    "new_columns" newColumns rfl (by simp) (by simp) (by decide)
  · rintro tidy _ ⟨⟩
    simp [tidy]
  · rintro tidy _ ⟨⟩
    simp [tidy]

theorem writes_argmax (groups : ColumnList) : ∃ members, Writes (.argmax column groups) members := by
  apply writes_of_optionalTexts [("column", .string column)] "groups" groups rfl (by simp)
    (by simp) (by decide)
  · rintro tidy _ ⟨⟩
    simp [tidy]
  · rintro tidy _ ⟨⟩
    simp [tidy]

theorem writes_argmin (groups : ColumnList) : ∃ members, Writes (.argmin column groups) members := by
  apply writes_of_optionalTexts [("column", .string column)] "groups" groups rfl (by simp)
    (by simp) (by decide)
  · rintro tidy _ ⟨⟩
    simp [tidy]
  · rintro tidy _ ⟨⟩
    simp [tidy]

theorem writes_cumSum (pairs : ColumnPairs) (reference : String) (groups : ColumnList) :
    ∃ members, Writes (.cumSum pairs reference groups) members := by
  apply writes_of_optionalTexts
    [("to_cumsum", pairs.toJson), ("reference_column", .string reference)] "groupby" groups
    rfl (by simp) (by simp) (by decide)
  · rintro tidy _ ⟨⟩
    simp [tidy]
  · rintro tidy _ ⟨⟩
    simp [tidy]

theorem writes_toDate (format : String) : ∃ members, Writes (.toDate column format) members := by
  rcases optionalText_cases "format" format with ⟨absent, rfl⟩ | present
  · refine ⟨_, congrArg some (congrArg _ absent), by simp, by simp, ?_⟩
    rintro _ ⟨⟩
    simp
  · refine ⟨_, congrArg some (congrArg _ present), by simp, by simp, ?_⟩
    rintro _ ⟨⟩
    simp

theorem writes_substring {first last : Int} (bounded : Record.Bounded first ∧ Record.Bounded last) :
    ∃ members, Writes (.substring column first last newColumn) members := by
  have begins := Record.whole_integerText bounded.1
  have ends := Record.whole_integerText bounded.2
  rcases optionalText_cases "new_column_name" newColumn with ⟨absent, rfl⟩ | present
  · refine ⟨_, congrArg some (congrArg _ absent), by simp, by simp, ?_⟩
    rintro _ ⟨⟩
    simp [begins, ends]
  · refine ⟨_, congrArg some (congrArg _ present), by simp, by simp, ?_⟩
    rintro _ ⟨⟩
    simp [begins, ends]

theorem writes_percentage (group : ColumnList) :
    ∃ members, Writes (.percentage column group newColumn) members := by
  rcases optionalTexts_cases "group" group with ⟨absent, tidy⟩ | ⟨present, tidy⟩ <;>
    rcases optionalText_cases "new_column_name" newColumn with ⟨unnamed, rfl⟩ | named
  · refine ⟨_, by rw [toMembers?, absent, unnamed], by simp, by simp, ?_⟩
    rintro _ ⟨⟩
    simp [tidy]
  · refine ⟨_, by rw [toMembers?, absent, named], by simp, by simp, ?_⟩
    rintro _ ⟨⟩
    simp [tidy]
  · refine ⟨_, by rw [toMembers?, present, unnamed], by simp, by simp, ?_⟩
    rintro _ ⟨⟩
    simp [tidy]
  · refine ⟨_, by rw [toMembers?, present, named], by simp, by simp, ?_⟩
    rintro _ ⟨⟩
    simp [tidy]

theorem writes_aggregate (on : ColumnList) (aggregations : Option (List Aggregation))
    (keepRows : Bool) : ∃ members, Writes (.aggregate on aggregations keepRows) members := by
  have plain : (listJson aggregationJson aggregations).Plain :=
    .listJson (fun _ => by simp [aggregationJson]) aggregations
  cases keepRows with
  | false =>
    refine ⟨_, rfl, by simp [plain], by simp, ?_⟩
    rintro _ ⟨⟩
    simp
  | true =>
    refine ⟨_, rfl, by simp [plain], by simp, ?_⟩
    rintro _ ⟨⟩
    simp [Record.flag]

theorem writes_sort (keys : Option (List SortKey)) : ∃ members, Writes (.sort keys) members := by
  have plain : (listJson sortKeyJson keys).Plain :=
    .listJson (fun _ => by simp [sortKeyJson]) keys
  refine ⟨_, rfl, by simp [plain], by simp, ?_⟩
  rintro _ ⟨⟩
  simp

/-- What documents write as an operation is read back from what is written for it. -/
theorem Denoted.writes {operation : Operation} (denoted : Denoted operation) :
    ∃ members, Writes operation members := by
  cases operation with
  | filter condition => exact writes_filter denoted
  | formula newColumn expression => exact writes_formula newColumn denoted
  | top groups rankOn order limit => exact writes_top groups rankOn order denoted
  | fillna columns value => exact writes_fillna columns denoted
  | replace column pairs => exact writes_replace column denoted
  | dateExtract column parts newColumns => exact writes_dateExtract column parts newColumns
  | ifThenElse newColumn branch => exact writes_ifThenElse newColumn denoted
  | sort keys => exact writes_sort keys
  | aggregate on aggregations keepRows => exact writes_aggregate on aggregations keepRows
  | argmax column groups => exact writes_argmax column groups
  | argmin column groups => exact writes_argmin column groups
  | text newColumn content => exact writes_text newColumn denoted
  | toDate column format => exact writes_toDate column format
  | substring column first last newColumn => exact writes_substring column newColumn denoted
  | percentage column group newColumn => exact writes_percentage column newColumn group
  | cumSum pairs reference groups => exact writes_cumSum pairs reference groups
  | custom query => exact writes_custom denoted
  | _ =>
    -- The other kinds hold names only, and all of them are written.
    refine ⟨_, rfl, by simp, by simp, ?_⟩
    rintro _ ⟨⟩
    simp

end Kinds

end Operation

end StepQuery
