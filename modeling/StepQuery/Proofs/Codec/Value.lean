import StepQuery.Proofs.Fields
import StepQuery.Proofs.Json.RoundTrip

/-!
The values that documents denote can be written, and are read back from what is written: their
numbers are finite doubles, and their objects have ascending, distinct keys.
-/

namespace StepQuery

/-- A list that is made item by item, if all items can be made. -/
theorem forall₂_of_itemwise {α β : Type} {make : α → Option β} {makeAll : List α → Option (List β)}
    {items : List α} {made : List β} (success : makeAll items = some made) (nil : makeAll [] = some [])
    (cons : ∀ item rest, makeAll (item :: rest) = do
      let first ← make item
      let others ← makeAll rest
      return first :: others) :
    List.Forall₂ (fun item result => make item = some result) items made := by
  induction items generalizing made with
  | nil =>
    cases nil.symm.trans success
    exact .nil
  | cons item rest inductionHypothesis =>
    rw [cons] at success
    obtain ⟨first, makes, success⟩ := Option.bind_eq_some_iff.mp success
    obtain ⟨others, later, same⟩ := Option.bind_eq_some_iff.mp success
    cases same
    exact .cons makes (inductionHypothesis later)

namespace Value

/-- The values that documents denote. -/
inductive Denoted : Value → Prop
  | null : Denoted .null
  | bool (value : Bool) : Denoted (.bool value)
  | text (value : String) : Denoted (.text value)
  | double {value : Float} (finite : value.isFinite = true) : Denoted (.double value)
  | list {items : List Value} (each : ∀ item ∈ items, Denoted item) : Denoted (.list items)
  | map {fields : List (String × Value)} (each : ∀ entry ∈ fields, Denoted entry.2)
      (ascending : Fields.Ascending fields) : Denoted (.map fields)

theorem isFinite_of_finite? {literal : String} {number : Float}
    (found : finite? literal = some number) : number.isFinite = true := by
  unfold finite? at found
  split at found
  next decimal _ =>
    simp only at found
    split at found
    · contradiction
    next finite =>
      split at found
      · cases found
        rfl
      · cases found
        simpa using finite
  next => contradiction

mutual

theorem denoted_of_ofJson? : ∀ {json : Json} {value : Value}, ofJson? json = some value →
    Denoted value
  | .null, _, read => by
    cases read
    exact .null
  | .bool held, _, read => by
    cases read
    exact .bool held
  | .number literal, _, read => by
    rw [ofJson?] at read
    obtain ⟨number, found, rfl⟩ := Option.map_eq_some_iff.mp read
    exact .double (isFinite_of_finite? found)
  | .string held, _, read => by
    cases read
    exact .text held
  | .array items, _, read => by
    rw [ofJson?] at read
    obtain ⟨values, found, rfl⟩ := Option.map_eq_some_iff.mp read
    exact .list (denoted_of_ofItems? found)
  | .object members, _, read => by
    rw [ofJson?] at read
    obtain ⟨entries, found, rfl⟩ := Option.map_eq_some_iff.mp read
    exact .map (fun entry within => denoted_of_ofMembers? found entry (Fields.mem_ofList within))
      (Fields.ascending_ofList entries)

theorem denoted_of_ofItems? : ∀ {items : List Json} {values : List Value},
    ofItems? items = some values → ∀ value ∈ values, Denoted value
  | [], _, read => by
    cases read
    exact fun _ within => absurd within List.not_mem_nil
  | item :: rest, _, read => by
    rw [ofItems?] at read
    obtain ⟨value, first, read⟩ := Option.bind_eq_some_iff.mp read
    obtain ⟨others, later, read⟩ := Option.bind_eq_some_iff.mp read
    cases read
    exact List.forall_mem_cons.mpr ⟨denoted_of_ofJson? first, denoted_of_ofItems? later⟩

theorem denoted_of_ofMembers? : ∀ {members : List (String × Json)}
    {entries : List (String × Value)}, ofMembers? members = some entries →
      ∀ entry ∈ entries, Denoted entry.2
  | [], _, read => by
    cases read
    exact fun _ within => absurd within List.not_mem_nil
  | (name, item) :: rest, _, read => by
    rw [ofMembers?] at read
    obtain ⟨value, first, read⟩ := Option.bind_eq_some_iff.mp read
    obtain ⟨others, later, read⟩ := Option.bind_eq_some_iff.mp read
    cases read
    exact List.forall_mem_cons.mpr ⟨denoted_of_ofJson? first, denoted_of_ofMembers? later⟩

end

/-- A value is written as a document that denotes it. -/
def Writes (value : Value) (json : Json) : Prop :=
  value.toJson? = some json ∧ json.Plain ∧ ofJson? json = some value

theorem exists_items {items : List Value} (each : ∀ item ∈ items, ∃ json, Writes item json) :
    ∃ written, toItems? items = some written ∧ (∀ json ∈ written, json.Plain) ∧
      ofItems? written = some items := by
  induction items with
  | nil => exact ⟨[], rfl, by simp, rfl⟩
  | cons item rest inductionHypothesis =>
    obtain ⟨first, others⟩ := List.forall_mem_cons.mp each
    obtain ⟨json, writes, plain, reads⟩ := first
    obtain ⟨written, writesAll, plains, readsAll⟩ := inductionHypothesis others
    refine ⟨json :: written, ?_, List.forall_mem_cons.mpr ⟨plain, plains⟩, ?_⟩
    · simp [toItems?, writes, writesAll]
    · simp [ofItems?, reads, readsAll]

theorem exists_members {fields : List (String × Value)}
    (each : ∀ entry ∈ fields, ∃ json, Writes entry.2 json) :
    ∃ written, toMembers? fields = some written ∧ (∀ member ∈ written, member.2.Plain) ∧
      ofMembers? written = some fields := by
  induction fields with
  | nil => exact ⟨[], rfl, by simp, rfl⟩
  | cons entry rest inductionHypothesis =>
    obtain ⟨name, value⟩ := entry
    obtain ⟨first, others⟩ := List.forall_mem_cons.mp each
    obtain ⟨json, writes, plain, reads⟩ := first
    obtain ⟨written, writesAll, plains, readsAll⟩ := inductionHypothesis others
    refine ⟨(name, json) :: written, ?_, List.forall_mem_cons.mpr ⟨plain, plains⟩, ?_⟩
    · simp [toMembers?, writes, writesAll]
    · simp [ofMembers?, reads, readsAll]

/-- What a document denotes can be written as a document that denotes it. -/
theorem Denoted.writes {value : Value} (denoted : Denoted value) : ∃ json, Writes value json := by
  induction denoted with
  | null => exact ⟨.null, rfl, .null, rfl⟩
  | bool value => exact ⟨.bool value, rfl, .bool value, rfl⟩
  | text value => exact ⟨.string value, rfl, .string value, rfl⟩
  | double finite =>
    obtain ⟨⟨numeral, wellFormed, text⟩, read⟩ := NumberStyle.float_numeral finite
    refine ⟨.number _, ?_, .number wellFormed text, ?_⟩
    · simp [toJson?, finite]
    · simp [ofJson?, read]
  | list each inductionHypothesis =>
    obtain ⟨written, writes, plain, reads⟩ := exists_items inductionHypothesis
    refine ⟨.array written, ?_, .array plain, ?_⟩
    · simp [toJson?, writes]
    · simp [ofJson?, reads]
  | map each ascending inductionHypothesis =>
    obtain ⟨written, writes, plain, reads⟩ := exists_members inductionHypothesis
    refine ⟨.object written, ?_, .object plain, ?_⟩
    · simp [toJson?, writes]
    · simp [ofJson?, reads, ascending.ofList_eq]

end Value

end StepQuery
