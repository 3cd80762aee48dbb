import StepQuery.Proofs.Execution.Rows

/-!
Renaming columns.  The new columns are computed from the row as it was, and then the old columns are
removed, also those that are new ones at the same time.  So values move as they should where no new
name is among the old ones, and are lost where columns are swapped, moved on in a chain or given the
name that they have.
-/

namespace StepQuery

namespace Staging

/-- A row in which columns of another row have got new names: a new column holds what its old column
held, an old column that is not a new one too is gone, and every other column is as it was. -/
structure Renamed (pairs : List (String × String)) (row made : Fields Value) : Prop where
  moved : ∀ pair ∈ pairs, made.get? pair.2 = row.get? pair.1
  gone : ∀ pair ∈ pairs, pair.1 ∉ pairs.map (·.2) → made.get? pair.1 = none
  kept : ∀ name, name ∉ pairs.map (·.1) → name ∉ pairs.map (·.2) → made.get? name = row.get? name

section Renaming

variable (engine : Engine) (context : Context) (pairs : List (String × String))

/-- The new columns. -/
def renamedColumns : Fields Term := Fields.ofList (pairs.map fun pair => (pair.2, Term.column pair.1))

/-- The old columns, to be removed. -/
def formerColumns : Fields Term := Fields.ofList (pairs.map fun pair => (pair.1, Term.int 0))

/-- What the stages of a renaming make of a row. -/
def renamedRow (row : Fields Value) : Fields Value :=
  engine.exclude (formerColumns pairs) (engine.addFields (renamedColumns pairs) context row)

variable {pairs} (plain : ∀ pair ∈ pairs, isFieldName pair.1 ∧ isFieldName pair.2)

include plain

theorem plain_renamedColumns : ∀ field ∈ renamedColumns pairs, isFieldName field.1 := by
  intro field member
  obtain ⟨pair, within, rfl⟩ := List.mem_map.mp (Fields.mem_ofList member)
  exact (plain pair within).2

theorem plain_formerColumns : ∀ field ∈ formerColumns pairs, isFieldName field.1 := by
  intro field member
  obtain ⟨pair, within, rfl⟩ := List.mem_map.mp (Fields.mem_ofList member)
  exact (plain pair within).1

theorem run_rename (given : pairs ≠ []) (rows : List (Fields Value)) :
    engine.run (rename pairs) context rows = rows.map (renamedRow engine context pairs) := by
  have removes : ∀ field ∈ formerColumns pairs, field.2.flag? = some false := by
    intro field member
    obtain ⟨pair, _, rfl⟩ := List.mem_map.mp (Fields.mem_ofList member)
    rfl
  have paths : ∀ fields : Fields Term, (∀ field ∈ fields, isFieldName field.1) →
      (fields.all fun field => isFieldPath field.1) = true := by
    intro fields named
    exact List.all_eq_true.mpr fun field member => isFieldPath_of_isFieldName (named field member)
  have added : (renamedColumns pairs).isEmpty = false := by
    rw [renamedColumns, Fields.isEmpty_ofList]
    simpa using given
  have removed : (formerColumns pairs).isEmpty = false := by
    rw [formerColumns, Fields.isEmpty_ofList]
    simpa using given
  change engine.run [.addFields (renamedColumns pairs), .project (formerColumns pairs)] context rows = _
  rw [Engine.run_cons, Engine.run_addFields, Engine.run_project, added, removed,
    paths _ (plain_renamedColumns plain), paths _ (plain_formerColumns plain),
    Engine.project_of_removes removes]
  exact List.map_map

theorem get?_renamedRow (row : Fields Value) (name : String) :
    (renamedRow engine context pairs row).get? name =
      if name ∈ pairs.map (·.1) then none
      else ((renamedColumns pairs).get? name).elim (row.get? name)
        (engine.read context row) := by
  have ascending : Fields.Ascending (renamedColumns pairs) := Fields.ascending_ofList _
  have removed : name ∈ (formerColumns pairs).names ↔ name ∈ pairs.map (·.1) := by
    rw [formerColumns, Fields.mem_names_ofList, List.map_map]
    rfl
  rw [renamedRow, Engine.get?_exclude (plain_formerColumns plain),
    Engine.get?_addFields ascending (plain_renamedColumns plain)]
  simp only [removed]

/-- An old column is gone, whether it is a new one or not. -/
theorem get?_renamedRow_former {pair : String × String} (member : pair ∈ pairs) (row : Fields Value) :
    (renamedRow engine context pairs row).get? pair.1 = none := by
  rw [get?_renamedRow engine context plain, if_pos (List.mem_map_of_mem member)]

/-- A new column that is no old one holds what its old column held. -/
theorem get?_renamedRow_moved (distinct : (pairs.map (·.2)).Nodup) {pair : String × String}
    (member : pair ∈ pairs) (new : pair.2 ∉ pairs.map (·.1)) (row : Fields Value) :
    (renamedRow engine context pairs row).get? pair.2 = row.get? pair.1 := by
  have names : ((pairs.map fun pair => (pair.2, Term.column pair.1)).map (·.1)).Nodup := by
    rw [List.map_map]
    exact distinct
  have found : (renamedColumns pairs).get? pair.2 = some (Term.column pair.1) :=
    Fields.get?_ofList_of_nodup names (List.mem_map.mpr ⟨pair, member, rfl⟩)
  rw [get?_renamedRow engine context plain, if_neg new, found]
  exact Engine.read_column engine context (plain pair member).1 row

theorem get?_renamedRow_kept {name : String} (old : name ∉ pairs.map (·.1))
    (new : name ∉ pairs.map (·.2)) (row : Fields Value) :
    (renamedRow engine context pairs row).get? name = row.get? name := by
  have absent : (renamedColumns pairs).get? name = none := by
    refine Fields.get?_ofList_eq_none_iff.mpr (List.forall_mem_map.mpr ?_)
    exact fun pair member same => new (List.mem_map.mpr ⟨pair, member, same⟩)
  rw [get?_renamedRow engine context plain, if_neg old, absent]
  rfl

/-- Values move exactly if no new name is among the old ones. -/
theorem renamed_renamedRow_iff (distinct : (pairs.map (·.2)).Nodup) {row : Fields Value}
    (held : ∀ pair ∈ pairs, (row.get? pair.1).isSome) :
    Renamed pairs row (renamedRow engine context pairs row) ↔
      ∀ pair ∈ pairs, pair.2 ∉ pairs.map (·.1) := by
  constructor
  · intro renamed pair member old
    obtain ⟨other, within, same⟩ := List.mem_map.mp old
    have gone := get?_renamedRow_former engine context plain within row
    have moved := renamed.moved pair member
    rw [← same, gone] at moved
    exact absurd (held pair member) (by rw [← moved]; exact Bool.false_ne_true)
  · intro new
    exact
      { moved := fun pair member =>
          get?_renamedRow_moved engine context plain distinct member (new pair member) row
        gone := fun pair member _ => get?_renamedRow_former engine context plain member row
        kept := fun name old other => get?_renamedRow_kept engine context plain old other row }

end Renaming

/-- The stages of a renaming change every row on its own.  All old columns are gone, the new columns
that are no old ones hold what their old columns held, and the others are as they were; so a row that
has the old columns has them under their new names exactly if no new name is among the old ones. -/
theorem rename_rows_iff (target : Target) {pairs : List (String × String)} (given : pairs ≠ [])
    (distinct : (pairs.map (·.2)).Nodup)
    (plain : ∀ pair ∈ pairs, isFieldName pair.1 ∧ isFieldName pair.2) :
    ∃ stages, stepStages target (.transform (.rename (some pairs))) = .ok stages ∧
      ∀ (engine : Engine) (context : Context), ∃ make : Fields Value → Fields Value,
        (∀ rows, engine.run stages context rows = rows.map make) ∧
        ∀ row : Fields Value, (∀ pair ∈ pairs, (row.get? pair.1).isSome) →
          (∀ pair ∈ pairs, (make row).get? pair.1 = none) ∧
          (∀ pair ∈ pairs, pair.2 ∉ pairs.map (·.1) → (make row).get? pair.2 = row.get? pair.1) ∧
          (∀ name, name ∉ pairs.map (·.1) → name ∉ pairs.map (·.2) →
            (make row).get? name = row.get? name) ∧
          (Renamed pairs row (make row) ↔ ∀ pair ∈ pairs, pair.2 ∉ pairs.map (·.1)) := by
  refine ⟨rename pairs, rfl, fun engine context => ⟨renamedRow engine context pairs, ?_, ?_⟩⟩
  · exact run_rename engine context plain given
  · intro row held
    exact ⟨fun pair member => get?_renamedRow_former engine context plain member row,
      fun pair member new => get?_renamedRow_moved engine context plain distinct member new row,
      fun name old new => get?_renamedRow_kept engine context plain old new row,
      renamed_renamedRow_iff engine context plain distinct held⟩

/-- No collections and no variables. -/
def nowhere : Context := ⟨fun _ => [], []⟩

def resident : Fields Value := [("city", .text "Oslo"), ("name", .text "Ana")]

theorem rename_rows_resident : ∃ stages made,
    stepStages ⟨.usual, false⟩ (.transform (.rename (some [("city", "town")]))) = .ok stages ∧
      Engine.whole.run stages nowhere [resident] = [made] ∧
      made.get? "town" = some (.text "Oslo") ∧ made.get? "city" = none ∧
      made.get? "name" = some (.text "Ana") := by
  have plain : ∀ pair ∈ [("city", "town")], isFieldName pair.1 ∧ isFieldName pair.2 := by decide
  obtain ⟨stages, staged, each⟩ :=
    rename_rows_iff ⟨.usual, false⟩ (List.cons_ne_nil _ _) (by decide) plain
  obtain ⟨make, run, columns⟩ := each Engine.whole nowhere
  obtain ⟨gone, moved, kept, _⟩ := columns resident (by decide)
  exact ⟨stages, make resident, staged, run [resident], moved _ List.mem_cons_self (by decide),
    gone _ List.mem_cons_self, kept "name" (by decide) (by decide)⟩

/-- Not every renaming of distinct columns to distinct names keeps their values: two columns that
swap their names are lost. -/
theorem not_rename_renamed :
    ¬∀ (target : Target) (pairs : List (String × String)) (stages : List Stage) (engine : Engine)
      (context : Context) (row : Fields Value), pairs ≠ [] → (pairs.map (·.1)).Nodup →
      (pairs.map (·.2)).Nodup → (∀ pair ∈ pairs, isFieldName pair.1 ∧ isFieldName pair.2) →
      (∀ entry ∈ row, entry.2.isScalar) →
      (∀ pair ∈ pairs, (row.get? pair.1).isSome) →
      stepStages target (.transform (.rename (some pairs))) = .ok stages →
        ∃ made, engine.run stages context [row] = [made] ∧ Renamed pairs row made := by
  intro renames
  let swapped := [("city", "name"), ("name", "city")]
  have plain : ∀ pair ∈ swapped, isFieldName pair.1 ∧ isFieldName pair.2 := by decide
  have flat : ∀ entry ∈ resident, entry.2.isScalar := by decide
  have held : ∀ pair ∈ swapped, (resident.get? pair.1).isSome := by decide
  obtain ⟨made, run, renamed⟩ := renames ⟨.usual, false⟩ swapped (rename swapped) Engine.whole nowhere
    resident (List.cons_ne_nil _ _) (by decide) (by decide) plain flat held rfl
  rw [run_rename Engine.whole nowhere plain (List.cons_ne_nil _ _)] at run
  cases run
  have new := (renamed_renamedRow_iff Engine.whole nowhere plain (by decide) held).mp renamed
  exact absurd (new ("city", "name") List.mem_cons_self) (by decide)

end Staging

end StepQuery
