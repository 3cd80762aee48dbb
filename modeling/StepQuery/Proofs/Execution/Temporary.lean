import StepQuery.Proofs.Execution.Names
import StepQuery.Proofs.Query.Composition

/-!
The fields that stages use among themselves never leave them.  Rows that are gathered are kept in an
array as they were, and whatever a step takes out of it again is one of them, with fields whose names
the step was given.  In between, other fields hold the array, a position in it or a result; they go
when the row is put in the place of the group, or are removed at the end.
-/

namespace StepQuery

/-- Whether a name is one of those that stages use among themselves. -/
def isTemporary (name : String) : Bool := "_vqb".toList.isPrefixOf name.toList

namespace Fields

/-- Entries none of which has a temporary name. -/
abbrev IsClean {α : Type} (fields : Fields α) : Prop :=
  Named (fun name => isTemporary name = false) fields

/-- A row that holds clean rows in an array. -/
def HoldsRows (name : String) (row : Fields Value) : Prop :=
  ∃ held : List (Fields Value), row.get? name = some (.list (held.map .map)) ∧
    ∀ document ∈ held, document.IsClean

/-- A row that holds a clean row in a field, or nothing. -/
def HoldsRow (name : String) (row : Fields Value) : Prop :=
  ∀ value ∈ row.get? name, ∃ document : Fields Value, value = .map document ∧ document.IsClean

end Fields

open Fields (Named)

theorem isTemporary_iff {name : String} : isTemporary name ↔ "_vqb".toList <+: name.toList :=
  List.isPrefixOf_iff_prefix

theorem isTemporary_head {path head : String} (clean : isTemporary path = false)
    (first : head ∈ (pathNames path).head?) : isTemporary head = false := by
  rw [← Bool.not_eq_true, isTemporary_iff] at clean ⊢
  exact fun temporary => clean (temporary.trans (isPrefix_of_pathNames first))

theorem isTemporary_of_isMarked {name : String} (marked : isMarked name) : isTemporary name = false := by
  obtain ⟨rest, characters⟩ : ∃ rest, name.toList = '$' :: rest := by
    simpa [isMarked, List.head?_eq_some_iff] using marked
  rw [isTemporary, characters]
  rfl

/-- A clean name stays clean behind which a suffix is put. -/
theorem isTemporary_append {name suffix : String} {rest : List Char} (clean : isTemporary name = false)
    (begins : suffix.toList = '_' :: rest) (other : ¬ "vqb".toList <+: rest) :
    isTemporary (name ++ suffix) = false := by
  rw [← Bool.not_eq_true, isTemporary_iff] at clean ⊢
  rw [String.toList_append, begins]
  generalize name.toList = characters at clean ⊢
  rcases characters with _ | ⟨first, _ | ⟨second, _ | ⟨third, _ | ⟨fourth, more⟩⟩⟩⟩ <;>
    simp_all [List.cons_prefix_cons]
  exact clean

/-- No name of a date part completes the mark of a temporary field. -/
theorem isTemporary_part {column part : String} (clean : isTemporary column = false)
    (known : part ∈ DatePart.all.map DatePart.name) :
    isTemporary (column ++ "_" ++ part) = false := by
  have begins : ("_" ++ part).toList = '_' :: part.toList := by
    rw [String.toList_append]
    rfl
  rw [String.append_assoc]
  refine isTemporary_append clean begins ?_
  revert part
  decide +kernel

namespace Context

/-- A context none of whose collections has temporary fields. -/
def IsClean (context : Context) : Prop := ∀ source, ∀ row ∈ context.collections source, row.IsClean

end Context

namespace Unwinding

theorem ofValue?_column {name : String} (field : isFieldName name) :
    ofValue? (Term.column name).data = some ⟨[name], none, false⟩ := by
  change (path? (.text (Term.path name))).bind (fun path => some (Unwinding.mk path none false)) = _
  have read : path? (.text (Term.path name)) = some [name] := by
    rw [path?, Server.toList_path]
    simp [pathNames_of_isFieldName field]
  rw [read]
  rfl

end Unwinding

namespace Engine

variable {engine : Engine} {context : Context} {rows : List (Fields Value)}

/-- Stages that leave no temporary fields: of clean rows they make clean rows, where all collections
are clean. -/
def Keeps (engine : Engine) (stages : List Stage) : Prop :=
  ∀ context rows, context.IsClean → (∀ row ∈ rows, row.IsClean) →
    ∀ row ∈ engine.run stages context rows, row.IsClean

section Keeping

theorem keeps_nil : engine.Keeps [] := fun _ _ _ clean => clean

theorem Keeps.append {stages others : List Stage} (first : engine.Keeps stages)
    (second : engine.Keeps others) : engine.Keeps (stages ++ others) := by
  intro context rows collections clean
  rw [run_append]
  exact second context _ collections (first context rows collections clean)

theorem keeps_matching (condition : List (String × Term)) : engine.Keeps [.matching condition] := by
  intro context rows _ clean row member
  rw [run_matching] at member
  exact clean row (List.mem_of_mem_filter member)

theorem keeps_sort (keys : List (String × Int)) : engine.Keeps [.sort keys] := by
  intro context rows _ clean row member
  rw [run_sort] at member
  split at member
  · cases member
  · exact clean row ((engine.sort_perm keys rows).mem_iff.mp member)

theorem heads_of_clean {fields : List (String × Term)} (clean : Fields.IsClean fields) :
    Heads (fun name => isTemporary name = false) fields :=
  fun field member _ first => isTemporary_head (clean field member) first

theorem keeps_addFields {fields : List (String × Term)}
    (names : Fields.IsClean fields) : engine.Keeps [.addFields fields] := by
  intro context rows _ clean row member
  rw [run_addFields] at member
  split at member
  · cases member
  · obtain ⟨given, within, rfl⟩ := List.mem_map.mp member
    exact named_addFields (heads_of_clean names) (clean given within)

/-- A projection that names no temporary field. -/
theorem keeps_project {fields : List (String × Term)}
    (names : Fields.IsClean fields) : engine.Keeps [.project fields] := by
  intro context rows _ clean row member
  rw [run_project] at member
  split at member
  · cases member
  · obtain ⟨given, within, rfl⟩ := List.mem_map.mp member
    exact named_project (heads_of_clean names) rfl (clean given within)

end Keeping

section Arrays

theorem exists_of_mem_group {fields : List (String × Term)} {row : Fields Value}
    (member : row ∈ engine.run [.group fields] context rows) :
    (∀ field ∈ fields, isFieldName field.1) ∧ ∃ group : Value × List (Fields Value),
      (∀ given ∈ group.2, given ∈ rows) ∧ row = engine.groupRow fields context group := by
  rw [run_group, group] at member
  split at member
  next valid =>
    obtain ⟨found, dealt, rfl⟩ := List.mem_map.mp member
    exact ⟨List.all_eq_true.mp valid, found, fun _ within => engine.mem_of_dealt dealt within, rfl⟩
  next => cases member

/-- The row of a group has no other names than its fields. -/
theorem keeps_group {fields : List (String × Term)}
    (names : Fields.IsClean fields) : engine.Keeps [.group fields] := by
  intro context rows _ clean row member
  obtain ⟨_, group, _, rfl⟩ := exists_of_mem_group member
  intro entry within
  obtain ⟨field, held, made⟩ := List.mem_filterMap.mp within
  obtain ⟨value, _, rfl⟩ := Option.map_eq_some_iff.mp made
  exact names field held

theorem holdsRows_group {fields : List (String × Term)} {name : String} (other : name ≠ "_id")
    (pushed : Fields.get? fields name = some Staging.pushedRows)
    (clean : ∀ row ∈ rows, row.IsClean) :
    ∀ row ∈ engine.run [.group fields] context rows, row.HoldsRows name := by
  intro row member
  obtain ⟨_, group, given, rfl⟩ := exists_of_mem_group member
  exact ⟨group.2, engine.get?_groupRow_pushed context other pushed group,
    fun document within => clean document (given document within)⟩

theorem get?_unwoundItem {name : String} {unwinding : Unwinding} (path : unwinding.path = [name])
    (counts : ∀ counted ∈ unwinding.index, counted ≠ name) (row : Fields Value)
    (item : Option Value) (index : Value) :
    (engine.unwoundItem unwinding row item index).get? name = item := by
  have changed : (engine.change row (.write item) unwinding.path row).get? name = item := by
    rw [path]
    exact Fields.get?_place_self name item row
  unfold unwoundItem
  split
  next counted found => exact (Fields.get?_set_of_ne (counts counted found) _ _).trans changed
  next => exact changed

/-- What is taken out of an array of clean rows is one of them, if anything. -/
theorem holdsRow_unwind {name : String} {argument : Term} {unwinding : Unwinding}
    (read : Unwinding.ofValue? argument.data = some unwinding) (path : unwinding.path = [name])
    (counts : ∀ counted ∈ unwinding.index, counted ≠ name)
    (each : ∀ row ∈ rows, row.HoldsRows name) :
    ∀ row ∈ engine.run [.unwind argument] context rows, row.HoldsRow name := by
  intro row member
  rw [run_unwind engine context rows argument read] at member
  obtain ⟨given, within, member⟩ := List.mem_flatMap.mp member
  obtain ⟨held, found, clean⟩ := each given within
  have reached : given.reach unwinding.path = some (.list (held.map .map)) := by
    rw [path]
    exact found
  have empty {index : Value} :
      (engine.unwoundItem unwinding given none index).HoldsRow name := by
    intro value holds
    rw [get?_unwoundItem path counts] at holds
    cases holds
  unfold unwound at member
  rw [reached] at member
  cases held with
  | nil =>
    simp only [List.map_nil] at member
    split at member
    · rw [List.mem_singleton.mp member]
      exact empty
    · cases member
  | cons document documents =>
    obtain ⟨⟨item, index⟩, numbered, rfl⟩ := List.mem_map.mp member
    obtain ⟨inner, held, rfl⟩ := List.mem_map.mp (List.fst_mem_of_mem_zipIdx numbered)
    intro value holds
    rw [get?_unwoundItem path counts] at holds
    cases holds
    exact ⟨inner, rfl, clean inner held⟩

theorem named_unwind {allowed : String → Prop} {argument : Term} {unwinding : Unwinding}
    (read : Unwinding.ofValue? argument.data = some unwinding)
    (fine : ∀ head ∈ unwinding.path.head?, allowed head)
    (counts : ∀ name ∈ unwinding.index, allowed name) (named : ∀ row ∈ rows, Named allowed row) :
    ∀ row ∈ engine.run [.unwind argument] context rows, Named allowed row := by
  intro row member
  rw [run_unwind engine context rows argument read] at member
  obtain ⟨given, within, member⟩ := List.mem_flatMap.mp member
  obtain ⟨item, index, rfl⟩ := exists_of_mem_unwound member
  exact named_unwoundItem fine counts (named given within) item index

theorem holdsRow_unwind_column {name : String} (field : isFieldName name)
    (each : ∀ row ∈ rows, row.HoldsRows name) :
    ∀ row ∈ engine.run [.unwind (Term.column name)] context rows, row.HoldsRow name :=
  holdsRow_unwind (Unwinding.ofValue?_column field) rfl nofun each

end Arrays

section Roots

theorem clean_replaceRoot_column {name : String} (field : isFieldName name)
    (each : ∀ row ∈ rows, row.HoldsRow name) :
    ∀ row ∈ engine.run [.replaceRoot (Term.column name)] context rows, row.IsClean := by
  intro row member
  rw [run_replaceRoot] at member
  obtain ⟨given, within, replaced⟩ := List.mem_filterMap.mp member
  rw [replaceRoot_eq_some, read_column engine context field] at replaced
  obtain ⟨document, same, clean⟩ := each given within _ replaced
  cases same
  exact clean

theorem mergeOnto_of_read {first second : Term} {row made : Fields Value}
    (merged : engine.read context row (Term.call "$mergeObjects" [first, second]) =
      some (.map made)) :
    Operator.mergeOnto [] [engine.read context row first, engine.read context row second] =
      some made := by
  unfold read at merged ⊢
  rw [Server.evaluate_call (by decide) (by decide) (by decide), Term.dataOf_cons, Term.dataOf_cons,
    Term.dataOf_nil, Server.evaluateEach_cons, Server.evaluateEach_cons] at merged
  cases one : engine.server.evaluate ⟨row, context.bound⟩ first.data with
  | none =>
    rw [one] at merged
    cases merged
  | some found =>
    cases two : engine.server.evaluate ⟨row, context.bound⟩ second.data with
    | none =>
      rw [one, two] at merged
      cases merged
    | some other =>
      rw [one, two] at merged
      change (Operator.mergeOnto [] [found, other]).map Value.map = some (.map made) at merged
      obtain ⟨fields, together, same⟩ := Option.map_eq_some_iff.mp merged
      cases same
      exact together

/-- A row that two documents are merged into. -/
theorem named_replaceRoot_merged {allowed : String → Prop} {first second : Term}
    (named : ∀ row ∈ rows, ∀ fields,
      Operator.mergeable? (engine.read context row first) = some fields → Named allowed fields)
    (fine : ∀ row ∈ rows, ∀ fields,
      Operator.mergeable? (engine.read context row second) = some fields → Named allowed fields) :
    ∀ row ∈ engine.run [.replaceRoot (Term.call "$mergeObjects" [first, second])] context rows,
      Named allowed row := by
  intro row member
  rw [run_replaceRoot] at member
  obtain ⟨given, within, replaced⟩ := List.mem_filterMap.mp member
  exact named_merged (mergeOnto_of_read (engine.replaceRoot_eq_some.mp replaced)) (named given within)
    (fine given within)

theorem clean_mergeable_column {name : String} (field : isFieldName name) {row : Fields Value}
    (holds : row.HoldsRow name) {fields : Fields Value}
    (merges : Operator.mergeable? (engine.read context row (Term.column name)) = some fields) :
    fields.IsClean := by
  rw [read_column engine context field] at merges
  cases found : row.get? name with
  | none =>
    rw [found] at merges
    cases merges
    exact nofun
  | some value =>
    obtain ⟨document, rfl, clean⟩ := holds value found
    rw [found] at merges
    cases merges
    exact clean

theorem named_mergeable {allowed : String → Prop} {value : Option Value}
    (named : ∀ made, value = some (.map made) → Named allowed made) {fields : Fields Value}
    (merges : Operator.mergeable? value = some fields) : Named allowed fields := by
  unfold Operator.mergeable? at merges
  split at merges <;> cases merges
  · exact nofun
  · exact nofun
  · exact named fields rfl

/-- Rows that are taken out of an array, each with further fields. -/
theorem named_restored {allowed : String → Prop} {argument : Term} {unwinding : Unwinding}
    {fields : List (String × Term)}
    (unwinds : Unwinding.ofValue? argument.data = some unwinding)
    (path : unwinding.path = [temporary.rows])
    (counts : ∀ counted ∈ unwinding.index, counted ≠ temporary.rows)
    (fine : ∀ name, isTemporary name = false → allowed name)
    (each : ∀ row ∈ rows, row.HoldsRows temporary.rows)
    (named : rows ≠ [] → ∀ row made, engine.read context row (.document fields) = some (.map made) →
      Named allowed made) :
    ∀ row ∈ engine.run [.unwind argument, .replaceRoot (Term.call "$mergeObjects"
      [Term.column temporary.rows, .document fields])] context rows, Named allowed row := by
  have field : isFieldName temporary.rows := by decide
  rw [run_cons]
  apply named_replaceRoot_merged
  · intro row member document merges
    have holds := holdsRow_unwind unwinds path counts each row member
    exact (clean_mergeable_column field holds merges).mono fine
  · intro row member document merges
    have given : rows ≠ [] := by
      rintro rfl
      rw [run_unwind engine context [] argument unwinds] at member
      cases member
    exact named_mergeable (named given row) merges

theorem named_ungroup {allowed : String → Prop} {fields : List (String × Term)}
    (fine : ∀ name, isTemporary name = false → allowed name)
    (each : ∀ row ∈ rows, row.HoldsRows temporary.rows)
    (named : rows ≠ [] → ∀ row made, engine.read context row (.document fields) = some (.map made) →
      Named allowed made) :
    ∀ row ∈ engine.run (Staging.ungroup fields) context rows, Named allowed row :=
  named_restored (Unwinding.ofValue?_column (by decide)) rfl nofun fine each named

theorem get?_project_computed {name : String} (field : isFieldName name) {term : Term}
    (computed : term.flag? = none) (row : Fields Value) :
    (engine.project [(name, term)] context row).get? name = engine.read context row term := by
  have selected : engine.project [(name, term)] context row =
      engine.select [(name, term)] context row := by
    rw [project, List.all_cons, computed]
    rfl
  rw [selected]
  change (engine.take context row _ (name, term)).get? name = _
  rw [take, computed, pathNames_of_isFieldName field]
  exact Fields.get?_place_self name _ _

theorem read_operator_column {operator name : String} (marked : isMarked operator)
    (unprotected : operator ≠ "$literal") (other : operator ≠ "$ifNull") (field : isFieldName name)
    (row : Fields Value) (term : Term) {value : Option Value}
    (evaluated : engine.server.evaluate ⟨row, context.bound⟩ term.data = some value) :
    engine.read context row (Term.call operator [Term.column name, term]) =
      engine.apply operator [row.get? name, value] := by
  rw [Engine.read, Server.evaluate_pair marked unprotected other, evaluated]
  change engine.apply operator [View.reach _ name, value] = _
  rw [View.reach_of_isFieldName field]

end Roots

section Documents

/-- What is documented of operators, and keeps them from making up fields: sums and quotients are no
documents, and of a single scalar no operator makes a document with a temporary field. -/
structure Unobtrusive (engine : Engine) : Prop where
  scalar : ∀ operator ∈ ["$sum", "$divide"], ∀ arguments,
    ∀ value ∈ engine.operate operator arguments, value.isScalar
  clean : ∀ operator argument fields, (∀ value ∈ argument, value.isScalar) →
    engine.operate operator [argument] = some (.map fields) → Fields.IsClean fields

/-- An application of an operator that comes to no document. -/
structure Computes (engine : Engine) (term : Term) : Prop where
  applied : ∃ operator argument, isMarked operator ∧ term = Term.apply operator argument
  scalar : ∀ view, ∀ found ∈ engine.server.evaluate view term.data, ∀ value ∈ found, value.isScalar

/-- The names of an object without operators are those that it is written with. -/
theorem named_document {allowed : String → Prop} {fields : List (String × Term)}
    (unmarked : ∀ field ∈ fields, isMarked field.1 = false) (named : Named allowed fields)
    {row made : Fields Value}
    (read : engine.read context row (.document fields) = some (.map made)) : Named allowed made := by
  have plain : ((Term.dataOfFields fields).any fun field => isMarked field.1) = false := by
    rw [Term.dataOfFields_eq, List.any_map, List.any_eq_false]
    exact fun field member => by simp [unmarked field member]
  have sent : Named allowed (Term.dataOfFields fields) := by
    rw [Term.dataOfFields_eq]
    exact List.forall_mem_map.mpr named
  rw [Engine.read, Term.data, Server.evaluate, plain, if_neg Bool.false_ne_true] at read
  cases evaluated : engine.server.evaluateFields ⟨row, context.bound⟩ (Term.dataOfFields fields) with
  | none =>
    rw [evaluated] at read
    cases read
  | some found =>
    rw [evaluated] at read
    cases read
    exact named_evaluateFields evaluated sent

variable (unobtrusive : engine.Unobtrusive)

include unobtrusive

/-- An operator on a scalar makes no temporary field, whichever it is. -/
theorem clean_apply {name : String} {argument : Option Value}
    (scalar : ∀ value ∈ argument, value.isScalar) {made : Fields Value}
    (applied : engine.apply name [argument] = some (.map made)) : made.IsClean := by
  unfold apply at applied
  split at applied
  next =>
    obtain ⟨fields, merged, same⟩ := Option.map_eq_some_iff.mp applied
    cases same
    simp only [Operator.mergeOnto, Option.bind_eq_bind, Option.bind_eq_some_iff,
      Option.some.injEq] at merged
    obtain ⟨parts, merges, rfl⟩ := merged
    cases argument with
    | none =>
      cases merges
      exact List.forall_mem_nil _
    | some value =>
      cases value with
      | null =>
        cases merges
        exact List.forall_mem_nil _
      | map inner => cases scalar _ rfl
      | _ => cases merges
  next => cases argument with
    | none => cases applied
    | some value =>
      cases value with
      | list items => cases scalar _ rfl
      | _ => cases applied
  next => cases applied
  next same => cases same
  next => exact unobtrusive.clean _ argument made scalar applied

theorem clean_applied {view : View} {name operator : String} {argument : Value}
    {read : Option (Option Value)} (marked : isMarked operator)
    (scalar : ∀ found ∈ read, ∀ value ∈ found, value.isScalar) {made : Fields Value}
    (applied : engine.server.apply view read name (.map [(operator, argument)]) =
      some (some (.map made))) : made.IsClean := by
  unfold Server.apply at applied
  split at applied
  next =>
    cases applied
    exact List.forall_mem_singleton.mpr (isTemporary_of_isMarked marked)
  next same => cases same
  next same => cases same
  next same => cases same
  next same => cases same
  next =>
    cases read with
    | none => cases applied
    | some found => exact clean_apply unobtrusive (scalar found rfl) (Option.some.inj applied)

/-- Computed fields of clean names make a clean object, also where a name turns out to be that of an
operator. -/
theorem clean_document {fields : List (String × Term)}
    (names : Fields.IsClean fields)
    (computes : ∀ field ∈ fields, engine.Computes field.2) {row made : Fields Value}
    (read : engine.read context row (.document fields) = some (.map made)) : made.IsClean := by
  by_cases unmarked : ∀ field ∈ fields, isMarked field.1 = false
  · exact named_document unmarked names read
  · have operators : (Term.dataOfFields fields).any fun field => isMarked field.1 := by
      rw [Term.dataOfFields_eq, List.any_map, List.any_eq_true]
      simpa using unmarked
    rw [Engine.read, Term.data, Server.evaluate, if_pos operators] at read
    rcases fields with _ | ⟨⟨name, term⟩, _ | ⟨second, rest⟩⟩
    · cases operators
    · obtain ⟨⟨operator, argument, marked, same⟩, scalar⟩ := computes (name, term) List.mem_cons_self
      cases same
      have applied := Option.join_eq_some_iff.mp read
      change engine.server.apply _ (engine.server.evaluate _ (Term.apply operator argument).data) name
        (Term.apply operator argument).data = _ at applied
      rw [Term.data_apply] at applied
      exact clean_applied unobtrusive marked (scalar _) applied
    · have refused : engine.server.evaluateOperator ⟨row, context.bound⟩
          (Term.dataOfFields ((name, term) :: second :: rest)) = none := rfl
      rw [refused] at read
      cases read

theorem computes_runningSum (column : String) : engine.Computes (Staging.runningSum column) where
  applied := ⟨"$sum", _, by decide, rfl⟩
  scalar view found evaluated value held := by
    rw [Staging.runningSum, Term.data_apply, Server.evaluate_operator (by decide)] at evaluated
    change (Option.bind _ fun read => some (engine.operate "$sum" [read])) = some found at evaluated
    obtain ⟨read, _, same⟩ := Option.bind_eq_some_iff.mp evaluated
    cases same
    exact unobtrusive.scalar "$sum" (by decide) _ value held

theorem computes_share (test : Term) (terms : List Term) :
    engine.Computes (Term.cond test Term.null (Term.call "$divide" terms)) where
  applied := ⟨"$cond", _, by decide, rfl⟩
  scalar view found evaluated value held := by
    rw [Term.cond, Server.evaluate_call (by decide) (by decide) (by decide)] at evaluated
    obtain ⟨arguments, each, same⟩ := Option.map_eq_some_iff.mp evaluated
    simp only [Term.dataOf_cons, Term.dataOf_nil, Server.evaluateEach_cons,
      Option.bind_eq_some_iff, Option.some.injEq] at each
    obtain ⟨verdict, _, _, ⟨_, ofNull, _, ⟨share, divided, _, ofNothing, rfl⟩, rfl⟩, rfl⟩ := each
    cases ofNull
    cases ofNothing
    change (if Value.truth verdict then some Value.null else share) = found at same
    split at same
    · cases same
      cases held
      rfl
    · cases same
      rw [Server.evaluate_call (by decide) (by decide) (by decide)] at divided
      obtain ⟨arguments, _, rfl⟩ := Option.map_eq_some_iff.mp divided
      exact unobtrusive.scalar "$divide" (by decide) arguments value held

end Documents

end Engine

end StepQuery
