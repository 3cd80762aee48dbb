import StepQuery.Proofs.Execution.Engine
import StepQuery.Proofs.Number.Numeral

/-!
Which names the fields of a row have.  A stage that changes fields touches the first name of a path and
no other name of the row; a projection that keeps or computes fields has no other names than these.
Names that stages make themselves are numbered, each number giving a field name of its own.
-/

namespace StepQuery

section Numbered

theorem toList_numbered (stem : String) (index : Nat) :
    (stem ++ Decimal.integerText index).toList = stem.toList ++ Decimal.digits index := by
  have text : (Decimal.integerText index).toList = Decimal.digits index :=
    Decimal.toList_integerText index
  rw [String.toList_append, text]

theorem numbered_injective (stem : String) :
    Function.Injective fun index : Nat => stem ++ Decimal.integerText index := by
  intro first second same
  have characters := congrArg String.toList same
  rw [toList_numbered, toList_numbered, List.append_cancel_left_eq] at characters
  rw [← Decimal.digitsValue_digits first, characters, Decimal.digitsValue_digits]

/-- A name stays one behind which anything is put but a separator. -/
theorem isFieldName_append {name suffix : String} (field : isFieldName name)
    (undotted : '.' ∉ suffix.toList) : isFieldName (name ++ suffix) := by
  simp only [isFieldName, isMarked, Bool.and_eq_true, Bool.not_eq_true', List.contains_eq_mem,
    decide_eq_false_iff_not] at field ⊢
  obtain ⟨⟨given, unmarked⟩, clean⟩ := field
  rw [String.toList_append]
  cases characters : name.toList with
  | nil => simp [characters] at given
  | cons first rest =>
    rw [characters] at unmarked clean
    exact ⟨⟨rfl, unmarked⟩, by simpa [undotted] using clean⟩

theorem isFieldName_numbered {stem : String} (field : isFieldName stem) (index : Nat) :
    isFieldName (stem ++ Decimal.integerText index) := by
  have text : (Decimal.integerText index).toList = Decimal.digits index :=
    Decimal.toList_integerText index
  apply isFieldName_append field
  rw [text]
  exact fun member => absurd (AllDigits.digits index _ member) (by decide)

theorem undotted_of_isFieldName {name : String} (field : isFieldName name) : '.' ∉ name.toList := by
  simp only [isFieldName, Bool.and_eq_true, Bool.not_eq_true', List.contains_eq_mem,
    decide_eq_false_iff_not] at field
  exact field.2

theorem pathNames_below {outer inner : String} (field : isFieldName outer)
    (below : isFieldName inner) : pathNames (outer ++ "." ++ inner) = [outer, inner] := by
  have characters : (outer ++ "." ++ inner).toList = outer.toList ++ '.' :: inner.toList := by
    rw [String.toList_append, String.toList_append, List.append_assoc]
    rfl
  have name : (inner.toList.splitOn '.').map String.ofList = [inner] := pathNames_of_isFieldName below
  rw [pathNames, characters, List.splitOn_append_cons_self_of_not_mem (undotted_of_isFieldName field),
    List.map_cons, String.ofList_toList, name]

end Numbered

namespace Fields

variable {α : Type} {allowed : String → Prop}

/-- All entries of a document have allowed names. -/
def Named (allowed : String → Prop) (fields : Fields α) : Prop := ∀ entry ∈ fields, allowed entry.1

theorem Named.mono {others : String → Prop} {fields : Fields α} (named : Named allowed fields)
    (more : ∀ name, allowed name → others name) : Named others fields :=
  fun entry member => more entry.1 (named entry member)

theorem Named.set {fields : Fields α} (named : Named allowed fields) {name : String}
    (fine : allowed name) (value : α) : Named allowed (fields.set name value) := by
  intro entry member
  rcases mem_set member with rfl | old
  · exact fine
  · exact named entry old

theorem Named.erase {fields : Fields α} (name : String)
    (named : Named (fun other => other = name ∨ allowed other) fields) :
    Named allowed (fields.erase name) := by
  intro entry member
  obtain ⟨within, different⟩ := List.mem_filter.mp member
  exact (named entry within).resolve_left (by simpa using different)

theorem Named.place {fields : Fields α} (named : Named allowed fields) {name : String}
    (fine : allowed name) (value : Option α) : Named allowed (fields.place name value) := by
  cases value with
  | some value => exact named.set fine value
  | none => exact Named.erase name (named.mono fun _ => .inr)

theorem Named.overlay {fields others : Fields α} (named : Named allowed fields)
    (fine : Named allowed others) : Named allowed (fields.overlay others) :=
  List.foldlRecOn (motive := Named allowed) others _ named
    fun _ made entry member => made.set (fine entry member) entry.2

end Fields

open Fields (Named)

/-- Only the first name of a path is a name of a row. -/
def Heads (allowed : String → Prop) (fields : List (String × Term)) : Prop :=
  ∀ field ∈ fields, ∀ head ∈ (pathNames field.1).head?, allowed head

namespace Engine

variable {engine : Engine} {context : Context} {row : Fields Value} {allowed : String → Prop}

theorem named_change {made : Fields Value} (change : Change) {path : List String}
    (named : Named allowed made) (fine : ∀ head ∈ path.head?, allowed head) :
    Named allowed (engine.change row change path made) := by
  match path with
  | [] => exact named
  | [name] =>
    have head : allowed name := fine name rfl
    cases change with
    | write value => exact named.place head value
    | keep => exact named.place head _
    | remove => exact Named.erase name (named.mono fun _ => .inr)
  | name :: next :: below => exact named.place (fine name rfl) _

section Fields

variable {fields : List (String × Term)} (heads : Heads allowed fields)

include heads

theorem named_addFields (named : Named allowed row) :
    Named allowed (engine.addFields fields context row) :=
  List.foldlRecOn (motive := Named allowed) fields _ named
    fun _ made field member => named_change _ made (heads field member)

theorem named_exclude (named : Named allowed row) : Named allowed (engine.exclude fields row) :=
  List.foldlRecOn (motive := Named allowed) fields _ named
    fun _ made field member => named_change _ made (heads field member)

/-- Whatever a row was, what is kept and computed of it has the names that are asked for. -/
theorem named_select (identity : allowed "_id") :
    Named allowed (engine.select fields context row) := by
  refine List.foldlRecOn (motive := Named allowed) fields _ ?_ ?_
  · split
    · exact nofun
    · exact Named.place (fun _ => nofun) identity _
  · intro made named field member
    unfold take
    split
    · exact named
    · exact named_change _ named (heads field member)
    · exact named_change _ named (heads field member)

theorem named_project (identity : allowed "_id") (named : Named allowed row) :
    Named allowed (engine.project fields context row) := by
  unfold project
  split
  · exact named_exclude heads named
  · exact named_select heads identity

end Fields

/-- A name that is removed is a name no more. -/
theorem named_exclude_column {name : String} (field : isFieldName name)
    (named : Named (fun other => other = name ∨ allowed other) row) (term : Term) :
    Named allowed (engine.exclude [(name, term)] row) := by
  change Named allowed (engine.change row .remove (pathNames name) row)
  rw [pathNames_of_isFieldName field]
  exact Named.erase name named

theorem named_unwoundItem {unwinding : Unwinding} (fine : ∀ head ∈ unwinding.path.head?, allowed head)
    (counts : ∀ name ∈ unwinding.index, allowed name) (named : Named allowed row)
    (item : Option Value) (index : Value) :
    Named allowed (engine.unwoundItem unwinding row item index) := by
  have changed : Named allowed (engine.change row (.write item) unwinding.path row) :=
    named_change _ named fine
  unfold unwoundItem
  split
  next name counted => exact changed.set (counts name counted) index
  next => exact changed

theorem exists_of_mem_unwound {unwinding : Unwinding} {made : Fields Value}
    (member : made ∈ engine.unwound unwinding row) :
    ∃ item index, made = engine.unwoundItem unwinding row item index := by
  unfold unwound at member
  split at member
  · split at member
    · exact ⟨_, _, List.mem_singleton.mp member⟩
    · cases member
  · obtain ⟨pair, _, rfl⟩ := List.mem_map.mp member
    exact ⟨_, _, rfl⟩
  · split at member
    · exact ⟨_, _, List.mem_singleton.mp member⟩
    · cases member
  · split at member
    · exact ⟨_, _, List.mem_singleton.mp member⟩
    · cases member
  · exact ⟨_, _, List.mem_singleton.mp member⟩

/-- What merging two documents makes has the names of both. -/
theorem named_merged {first second : Option Value} {made : Fields Value}
    (merged : Operator.mergeOnto [] [first, second] = some made)
    (named : ∀ fields, Operator.mergeable? first = some fields → Named allowed fields)
    (fine : ∀ fields, Operator.mergeable? second = some fields → Named allowed fields) :
    Named allowed made := by
  simp only [Operator.mergeOnto, Option.bind_eq_bind, Option.bind_eq_some_iff,
    Option.some.injEq] at merged
  obtain ⟨fields, ofFirst, others, ofSecond, rfl⟩ := merged
  have empty : Named allowed ([] : Fields Value) := nofun
  exact (empty.overlay (named fields ofFirst)).overlay (fine others ofSecond)

/-- The names of an object are those that it is written with, unless one of them is an operator. -/
theorem named_evaluateFields {view : View} {fields : List (String × Value)}
    {made : List (String × Value)} (evaluated : engine.server.evaluateFields view fields = some made)
    (named : Named allowed fields) : Named allowed made := by
  induction fields generalizing made with
  | nil =>
    cases evaluated
    exact nofun
  | cons field rest inductionHypothesis =>
    obtain ⟨name, item⟩ := field
    obtain ⟨first, later⟩ := List.forall_mem_cons.mp named
    rw [Server.evaluateFields] at evaluated
    simp only [Option.bind_eq_bind, Option.bind_eq_some_iff, Option.pure_def,
      Option.some.injEq] at evaluated
    obtain ⟨found, _, others, evaluated, rfl⟩ := evaluated
    refine List.forall_mem_append.mpr ⟨?_, inductionHypothesis evaluated later⟩
    intro entry member
    obtain ⟨value, _, rfl⟩ := Option.map_eq_some_iff.mp (Option.mem_toList.mp member)
    exact first

end Engine

end StepQuery
