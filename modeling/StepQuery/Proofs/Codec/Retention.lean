import StepQuery.Proofs.Codec.Strictness

/-!
What a document says, place by place.  Null, false, zero, the empty text and the empty list say nothing
wherever they stand, so two documents that say the same differ in the order of their keys, in the case of
the letters of their keys and in such defaults alone.  A document is retained by another if that says what
the first says, save for places that are spare, and nothing else.
-/

namespace StepQuery.Json

open Record (folded valueOf)

/-- A step into a document: to the member of a name, whatever the case of its letters, or to the item at
a place. -/
inductive Key where
  | field (name : List Char)
  | item (index : Nat)

/-- What may stand at a place and is no default.  Of an object, that it is one. -/
inductive Datum where
  | truth
  | number (value : Float)
  | text (value : String)
  | object

/-- A document says something at a place.  Numbers are the doubles that they denote. -/
inductive Holds : Json → List Key → Datum → Prop
  | truth : Holds (.bool true) [] .truth
  | number {literal : String} {value : Float} (denotes : Value.finite? literal = some value)
      (nonzero : (value == 0) = false) : Holds (.number literal) [] (.number value)
  | text {value : String} (nonempty : value ≠ "") : Holds (.string value) [] (.text value)
  | object (members : List (String × Json)) : Holds (.object members) [] .object
  | item {items : List Json} {index : Nat} {json : Json} {path : List Key} {datum : Datum}
      (stands : items[index]? = some json) (holds : Holds json path datum) :
      Holds (.array items) (.item index :: path) datum
  | member {members : List (String × Json)} {member : String × Json} {path : List Key} {datum : Datum}
      (within : member ∈ members) (holds : Holds member.2 path datum) :
      Holds (.object members) (.field (folded member.1) :: path) datum

/-- What is written retains a document: it says what the document says, save for the spare places, where
it says nothing; and it says nothing that the document does not say, although it may have objects that say
nothing. -/
structure Retains (spare : List Key → Prop) (json written : Json) : Prop where
  kept : ∀ path datum, json.Holds path datum → ¬ spare path → written.Holds path datum
  added : ∀ path datum, written.Holds path datum → datum ≠ .object → json.Holds path datum
  dropped : ∀ path datum, spare path → ¬ written.Holds path datum

/-- Two documents that say the same. -/
def Alike (json other : Json) : Prop := ∀ path datum, json.Holds path datum ↔ other.Holds path datum

variable {spare : List Key → Prop} {json other written : Json} {path : List Key} {datum : Datum}

theorem not_holds_null : ¬ Holds .null path datum := nofun

theorem Alike.refl (json : Json) : Alike json json := fun _ _ => Iff.rfl

theorem Alike.symm (alike : Alike json other) : Alike other json :=
  fun path datum => (alike path datum).symm

theorem Alike.retains (alike : Alike json written)
    (free : ∀ path datum, spare path → ¬ written.Holds path datum) : Retains spare json written where
  kept path datum holds _ := (alike path datum).mp holds
  added path datum holds _ := (alike path datum).mpr holds
  dropped := free

theorem Retains.of_alike_left (alike : Alike json other) (retains : Retains spare other written) :
    Retains spare json written where
  kept path datum holds free := retains.kept path datum ((alike path datum).mp holds) free
  added path datum holds plain := (alike path datum).mpr (retains.added path datum holds plain)
  dropped := retains.dropped

theorem Retains.of_alike_right (alike : Alike other written) (retains : Retains spare json other) :
    Retains spare json written where
  kept path datum holds free := (alike path datum).mp (retains.kept path datum holds free)
  added path datum holds plain := retains.added path datum ((alike path datum).mpr holds) plain
  dropped path datum free holds := retains.dropped path datum free ((alike path datum).mpr holds)

theorem Retains.of_free (free : ∀ path, ¬ spare path) (retains : Retains (fun _ => False) json written) :
    Retains spare json written where
  kept path datum holds _ := retains.kept path datum holds id
  added := retains.added
  dropped path _ spared := absurd spared (free path)

theorem Retains.spare_congr {spare' : List Key → Prop} (same : ∀ path, spare path ↔ spare' path)
    (retains : Retains spare' json written) : Retains spare json written where
  kept path datum holds free := retains.kept path datum holds (mt (same path).mpr free)
  added := retains.added
  dropped path datum spared := retains.dropped path datum ((same path).mp spared)

/-- The empty text says nothing. -/
theorem alike_null_text : Alike .null (.string "") := fun path datum =>
  iff_of_false not_holds_null (by rintro (_ | _ | nonempty); exact nonempty rfl)

theorem Retains.of_alike_text {value : String} (alike : Alike json (.string value)) (top : ¬ spare []) :
    Retains spare json (.string value) := by
  refine alike.retains ?_
  rintro _ _ free (_ | _ | _)
  exact top free

theorem Retains.null : Retains spare .null .null :=
  ⟨nofun, nofun, fun _ _ _ => not_holds_null⟩

/-- What is spare may be anything, if nothing is written. -/
theorem Retains.of_spare (all : ∀ path, spare path) : Retains spare json .null :=
  ⟨fun path _ _ free => absurd (all path) free, nofun, fun _ _ _ => not_holds_null⟩

/-- Null is retained by whatever retains an object without members. -/
theorem Retains.null_of_empty (retains : Retains spare (.object []) written) :
    Retains spare .null written where
  kept := nofun
  added path datum holds plain := by
    obtain _ | _ | _ | _ | _ | ⟨within, _⟩ := retains.added path datum holds plain
    · exact absurd rfl plain
    · cases within
  dropped := retains.dropped

/-! ### Lists -/

/-- The item at a place of a list; beyond its end there is null. -/
def itemAt (items : List Json) (index : Nat) : Json := items[index]?.getD .null

theorem Distinct.itemAt {items : List Json} (distinct : Distinct (.array items)) (index : Nat) :
    Distinct (itemAt items index) := by
  unfold Json.itemAt
  cases stands : items[index]? with
  | none => exact .null
  | some json => exact distinct.item json (List.mem_of_getElem? stands)

theorem holds_array_iff {items : List Json} : Holds (.array items) path datum ↔
    ∃ index rest, path = .item index :: rest ∧ Holds (itemAt items index) rest datum := by
  constructor
  · rintro (_ | _ | _ | _ | ⟨stands, holds⟩)
    exact ⟨_, _, rfl, by rwa [itemAt, stands]⟩
  · rintro ⟨index, rest, rfl, holds⟩
    unfold itemAt at holds
    cases stands : items[index]? with
    | none =>
      rw [stands] at holds
      exact absurd holds not_holds_null
    | some json =>
      rw [stands] at holds
      exact .item stands holds

theorem alike_null_array_nil : Alike .null (.array []) := fun path datum => by
  rw [holds_array_iff]
  exact iff_of_false not_holds_null fun ⟨_, _, _, holds⟩ => not_holds_null holds

theorem Retains.array {items others : List Json} (each : ∀ index,
      Retains (fun rest => spare (.item index :: rest)) (itemAt items index) (itemAt others index)) :
    Retains spare (.array items) (.array others) := by
  refine ⟨?_, ?_, ?_⟩
  · intro path datum holds free
    obtain ⟨index, rest, rfl, inner⟩ := holds_array_iff.mp holds
    exact holds_array_iff.mpr ⟨index, rest, rfl, (each index).kept rest datum inner free⟩
  · intro path datum holds plain
    obtain ⟨index, rest, rfl, inner⟩ := holds_array_iff.mp holds
    exact holds_array_iff.mpr ⟨index, rest, rfl, (each index).added rest datum inner plain⟩
  · intro path datum free holds
    obtain ⟨index, rest, rfl, inner⟩ := holds_array_iff.mp holds
    exact (each index).dropped rest datum free inner

section Items

variable {α : Type} {reads : Json → α → Prop} {writes : α → Json → Prop} {documents others : List Json}
  {found : List α}

/-- Lists that are read and written item by item are related place by place, if null is to itself. -/
theorem relates_itemAt {relates : Nat → Json → Json → Prop} (null : ∀ index, relates index .null .null)
    (read : List.Forall₂ reads documents found) (write : List.Forall₂ writes found others)
    (each : ∀ index, ∀ json ∈ documents, ∀ item other, reads json item → writes item other →
      relates index json other) (index : Nat) :
    relates index (itemAt documents index) (itemAt others index) := by
  induction read generalizing others relates index with
  | nil =>
    cases write
    exact null index
  | cons first _ inductionHypothesis =>
    obtain _ | ⟨written, later⟩ := write
    cases index with
    | zero => exact each 0 _ List.mem_cons_self _ _ first written
    | succ index =>
      exact inductionHypothesis (fun index => null (index + 1)) later
        (fun index json within => each (index + 1) json (List.mem_cons_of_mem _ within)) index

theorem Retains.items (read : List.Forall₂ reads documents found)
    (write : List.Forall₂ writes found others)
    (each : ∀ index, ∀ json ∈ documents, ∀ item other, reads json item → writes item other →
      Retains (fun rest => spare (.item index :: rest)) json other) :
    Retains spare (.array documents) (.array others) := by
  have null (index : Nat) : Retains (fun rest => spare (.item index :: rest)) .null .null := .null
  exact .array (relates_itemAt null read write each)

theorem alike_items (read : List.Forall₂ reads documents found)
    (write : List.Forall₂ writes found others)
    (each : ∀ json ∈ documents, ∀ item other, reads json item → writes item other → Alike json other) :
    Alike (.array documents) (.array others) := by
  have null (_ : Nat) : Alike .null .null := .refl _
  have alike := relates_itemAt null read write fun _ => each
  intro path datum
  rw [holds_array_iff, holds_array_iff]
  exact exists_congr fun index => exists_congr fun rest => and_congr_right fun _ => alike index rest datum

end Items

/-! ### Objects -/

section Object

variable {members others : List (String × Json)}

theorem holds_object_iff (unlike : (members.map fun member => folded member.1).Nodup) :
    Holds (.object members) path datum ↔ path = [] ∧ datum = .object ∨
      ∃ name rest, path = .field (folded name) :: rest ∧ Holds (valueOf members name) rest datum := by
  constructor
  · rintro (_ | _ | _ | _ | _ | ⟨within, holds⟩)
    · exact .inl ⟨rfl, rfl⟩
    · exact .inr ⟨_, _, rfl, by rwa [Record.valueOf_eq_of_mem unlike within rfl]⟩
  · rintro (⟨rfl, rfl⟩ | ⟨name, rest, rfl, holds⟩)
    · exact .object members
    · obtain ⟨member, within, same, value⟩ | ⟨_, missing⟩ := Record.valueOf_cases unlike name
      · rw [← same]
        exact .member within (value ▸ holds)
      · rw [missing] at holds
        exact absurd holds not_holds_null

theorem Distinct.valueOf (distinct : Distinct (.object members)) (name : String) :
    Distinct (valueOf members name) :=
  Record.valueOf_spec .null distinct.member name

/-- Members restate others if they do so name by name. -/
structure Restates (spare : List Key → Prop) (members others : List (String × Json)) : Prop where
  unlike : (others.map fun member => folded member.1).Nodup
  each : ∀ name, Retains (fun rest => spare (.field (folded name) :: rest)) (valueOf members name)
    (valueOf others name)

theorem Restates.retains (unlike : (members.map fun member => folded member.1).Nodup) (top : ¬ spare [])
    (restates : Restates spare members others) : Retains spare (.object members) (.object others) := by
  obtain ⟨unlike', each⟩ := restates
  refine ⟨?_, ?_, ?_⟩
  · intro path datum holds free
    obtain ⟨rfl, rfl⟩ | ⟨name, rest, rfl, inner⟩ := (holds_object_iff unlike).mp holds
    · exact .object others
    · exact (holds_object_iff unlike').mpr (.inr ⟨name, rest, rfl, (each name).kept rest datum inner free⟩)
  · intro path datum holds plain
    obtain ⟨rfl, rfl⟩ | ⟨name, rest, rfl, inner⟩ := (holds_object_iff unlike').mp holds
    · exact absurd rfl plain
    · exact (holds_object_iff unlike).mpr (.inr ⟨name, rest, rfl, (each name).added rest datum inner plain⟩)
  · intro path datum free holds
    obtain ⟨rfl, rfl⟩ | ⟨name, rest, rfl, inner⟩ := (holds_object_iff unlike').mp holds
    · exact top free
    · exact (each name).dropped rest datum free inner

/-- Members that all belong to some fields are compared field by field. -/
theorem restates_of_fields {names : List String}
    (known : ∀ member ∈ members, ∃ name ∈ names, folded member.1 = folded name)
    (known' : ∀ member ∈ others, ∃ name ∈ names, folded member.1 = folded name)
    (unlike' : (others.map fun member => folded member.1).Nodup)
    (each : ∀ name ∈ names, Retains (fun rest => spare (.field (folded name) :: rest))
      (valueOf members name) (valueOf others name)) : Restates spare members others := by
  refine ⟨unlike', fun name => ?_⟩
  by_cases declared : ∃ field ∈ names, folded name = folded field
  · obtain ⟨field, within, same⟩ := declared
    have retains := each field within
    rwa [← same, ← Record.valueOf_congr same, ← Record.valueOf_congr same] at retains
  · have missing {members : List (String × Json)}
        (known : ∀ member ∈ members, ∃ name ∈ names, folded member.1 = folded name) :
        valueOf members name = .null := by
      refine Record.valueOf_eq_null fun member within same => declared ?_
      obtain ⟨field, present, equal⟩ := known member within
      exact ⟨field, present, same.symm.trans equal⟩
    rw [missing known, missing known']
    exact .null

/-- Members that all belong to members that are written are compared with those. -/
theorem restates_of_written
    (known : ∀ member ∈ members, ∃ name ∈ others.map (·.1), folded member.1 = folded name)
    (unlike' : (others.map fun member => folded member.1).Nodup)
    (each : ∀ other ∈ others, Retains (fun rest => spare (.field (folded other.1) :: rest))
      (valueOf members other.1) other.2) : Restates spare members others := by
  refine restates_of_fields known (fun other present => ⟨_, List.mem_map_of_mem present, rfl⟩) unlike' ?_
  refine List.forall_mem_map.mpr fun other present => ?_
  rw [Record.valueOf_eq_of_mem unlike' present rfl]
  exact each other present

end Object

end StepQuery.Json
