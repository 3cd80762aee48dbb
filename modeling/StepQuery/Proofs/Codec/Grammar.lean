import StepQuery.Proofs.Codec.Parameters

/-!
The grammar of conditions.  A document is accepted as a condition just if it is null, an object with the
one key `and` or `or` for a list of conditions, or an object that compares; and the condition that is read
has the nesting and the order of the document.
-/

namespace StepQuery

namespace Json

/-- Induction along the items of the lists that objects hold. -/
theorem induction_items {motive : Json → Prop}
    (plain : ∀ json, (∀ members, json ≠ .object members) → motive json)
    (object : ∀ members, (∀ member ∈ members, ∀ items, member.2 = .array items →
      ∀ item ∈ items, motive item) → motive (.object members)) (json : Json) : motive json :=
  match json with
  | .null | .bool _ | .number _ | .string _ | .array _ => plain _ nofun
  | .object members => object members (inMembers members)
where
  inMembers : ∀ members : List (String × Json), ∀ member ∈ members, ∀ items, member.2 = .array items →
      ∀ item ∈ items, motive item
    | [] => nofun
    | (key, .array items) :: rest => by
      refine List.forall_mem_cons.mpr ⟨?_, inMembers rest⟩
      rintro _ ⟨⟩
      exact inItems items
    | (key, .null) :: rest | (key, .bool _) :: rest | (key, .number _) :: rest
    | (key, .string _) :: rest | (key, .object _) :: rest =>
      List.forall_mem_cons.mpr ⟨nofun, inMembers rest⟩
  inItems : ∀ items : List Json, ∀ item ∈ items, motive item
    | [] => nofun
    | item :: rest => List.forall_mem_cons.mpr ⟨induction_items plain object item, inItems rest⟩

mutual

/-- The numbers of a document, wherever they stand. -/
def literals : Json → List String
  | .number literal => [literal]
  | .array items => itemLiterals items
  | .object members => memberLiterals members
  | _ => []

def itemLiterals : List Json → List String
  | [] => []
  | item :: rest => literals item ++ itemLiterals rest

def memberLiterals : List (String × Json) → List String
  | [] => []
  | (_, json) :: rest => literals json ++ memberLiterals rest

end

/-- All numbers of a document are in the range of doubles. -/
def InRange (json : Json) : Prop := ∀ literal ∈ json.literals, (Value.finite? literal).isSome

end Json

namespace Value

mutual

/-- A document denotes a value just if its numbers are in range. -/
theorem isSome_ofJson?_iff : ∀ json : Json, (ofJson? json).isSome ↔ json.InRange
  | .null | .bool _ | .string _ => ⟨fun _ => nofun, fun _ => rfl⟩
  | .number literal => by simp [ofJson?, Json.InRange, Json.literals]
  | .array items => by
    rw [ofJson?, Option.isSome_map, Json.InRange, Json.literals]
    exact isSome_ofItems?_iff items
  | .object members => by
    rw [ofJson?, Option.isSome_map, Json.InRange, Json.literals]
    exact isSome_ofMembers?_iff members

theorem isSome_ofItems?_iff : ∀ items : List Json, (ofItems? items).isSome ↔
    ∀ literal ∈ Json.itemLiterals items, (finite? literal).isSome
  | [] => ⟨fun _ => nofun, fun _ => rfl⟩
  | item :: rest => by
    rw [Json.itemLiterals, List.forall_mem_append, ← isSome_ofItems?_iff rest, ← Json.InRange,
      ← isSome_ofJson?_iff item, ofItems?]
    cases ofJson? item <;> cases ofItems? rest <;> simp

theorem isSome_ofMembers?_iff : ∀ members : List (String × Json), (ofMembers? members).isSome ↔
    ∀ literal ∈ Json.memberLiterals members, (finite? literal).isSome
  | [] => ⟨fun _ => nofun, fun _ => rfl⟩
  | (_, json) :: rest => by
    rw [Json.memberLiterals, List.forall_mem_append, ← isSome_ofMembers?_iff rest, ← Json.InRange,
      ← isSome_ofJson?_iff json, ofMembers?]
    cases ofJson? json <;> cases ofMembers? rest <;> simp

end

end Value

namespace Record

/-- A text that a document says; null says the empty one. -/
inductive DenotesText : Json → String → Prop
  | string (value : String) : DenotesText (.string value) value
  | null : DenotesText .null ""

theorem denotesText_iff {json : Json} {found : String} : DenotesText json found ↔ text json "" = (found, none) := by
  rw [text_eq_iff]
  constructor
  · rintro (_ | _)
    · exact .inl rfl
    · exact .inr ⟨rfl, rfl⟩
  · rintro (rfl | ⟨rfl, rfl⟩)
    · exact .string found
    · exact .null

/-- What says a text fits a text field, whatever the field holds. -/
theorem DenotesText.exists_text {json : Json} {found : String} (denotes : DenotesText json found) (held : String) :
    ∃ next, text json held = (next, none) := by
  cases denotes with
  | string => exact ⟨found, rfl⟩
  | null => exact ⟨held, rfl⟩

theorem DenotesText.unique {json : Json} {first second : String} (left : DenotesText json first)
    (right : DenotesText json second) : first = second := by
  cases left <;> cases right <;> rfl

end Record

/-- The two ways of combining conditions. -/
inductive Connective where
  | all
  | any

namespace Connective

def key : Connective → String
  | .all => "and"
  | .any => "or"

def combine : Connective → List Condition → Condition
  | .all => .all
  | .any => .any

theorem key_injective {first second : Connective} (same : first.key = second.key) :
    first = second := by
  cases first <;> cases second <;> first | rfl | exact absurd same (by decide)

theorem combine_injective (connective : Connective) {first second : List Condition}
    (same : connective.combine first = connective.combine second) : first = second := by
  cases connective <;> cases same <;> rfl

end Connective

namespace Condition

/-- The fields of a comparison. -/
def comparisonNames : List String := ["column", "operator", "value"]

/-- The documents that the grammar accepts: null; an object with the one key `and` or `or`, which holds
null or a list of accepted documents other than null; and an object whose keys are `column`, `operator`
and `value` in any case, the first two with texts or null and the third with numbers in range.  The last
kind has neither the key `and` nor the key `or`. -/
inductive Accepted : Json → Prop
  | null : Accepted .null
  | empty (connective : Connective) : Accepted (.object [(connective.key, .null)])
  | combination (connective : Connective) {items : List Json} (present : ∀ item ∈ items, item ≠ .null)
      (each : ∀ item ∈ items, Accepted item) : Accepted (.object [(connective.key, .array items)])
  | comparison {members : List (String × Json)}
      (declared : ∀ member ∈ members, ∃ name ∈ comparisonNames, Record.sameName member.1 name = true)
      (column : ∃ found, Record.DenotesText (Record.valueOf members "column") found)
      (operator : ∃ found, Record.DenotesText (Record.valueOf members "operator") found)
      (value : (Record.valueOf members "value").InRange) : Accepted (.object members)

/-- A comparison that says what the members of an object say. -/
structure Compares (members : List (String × Json)) (found : Comparison) : Prop where
  declared : ∀ member ∈ members, ∃ name ∈ comparisonNames, Record.sameName member.1 name = true
  column : Record.DenotesText (Record.valueOf members "column") found.column
  operator : Record.DenotesText (Record.valueOf members "operator") found.operator
  value : Value.ofJson? (Record.valueOf members "value") = some found.value

/-- A condition that has the nesting and the order of a document, and whose comparisons say what the
document says. -/
inductive Mirrors : Json → Condition → Prop
  | absent : Mirrors .null .absent
  | empty (connective : Connective) :
      Mirrors (.object [(connective.key, .null)]) (connective.combine [])
  | combination (connective : Connective) {items : List Json} {children : List Condition}
      (present : ∀ item ∈ items, item ≠ .null) (each : List.Forall₂ Mirrors items children) :
      Mirrors (.object [(connective.key, .array items)]) (connective.combine children)
  | comparison {members : List (String × Json)} {found : Comparison} (compares : Compares members found) :
      Mirrors (.object members) (.simple found)

/-! ### Members -/

/-- The readings of the items of a list. -/
def readings : Json → List (Attempt Condition)
  | .array items => items.map ofJson
  | _ => []

theorem itemsOf_eq (items : List Json) : itemsOf items = items.map ofJson := by
  induction items with
  | nil => rfl
  | cons item rest inductionHypothesis => rw [itemsOf, inductionHypothesis, List.map_cons]

theorem membersOf_eq (members : List (String × Json)) :
    membersOf members = members.map fun member => (member.1, ⟨member.2, readings member.2⟩) := by
  induction members with
  | nil => rfl
  | cons member rest inductionHypothesis =>
    obtain ⟨key, json⟩ := member
    rw [List.map_cons, ← inductionHypothesis]
    cases json <;> simp [membersOf, readings, itemsOf_eq]

/-! ### Combinations -/

theorem children_eq_ok_iff {index : Nat} {attempts : List (Attempt Condition)}
    {found : List Condition} : children index attempts = .ok found ↔
      List.Forall₂ (fun attempt child => attempt = .ok child ∧ child ≠ .absent) attempts found := by
  induction attempts generalizing index found with
  | nil =>
    rw [children, List.forall₂_nil_left_iff]
    exact ⟨fun same => by cases same; rfl, fun same => by rw [same]⟩
  | cons attempt rest inductionHypothesis =>
    rw [children, Attempt.bind_eq_ok, List.forall₂_cons_left_iff]
    constructor
    · rintro ⟨child, first, read⟩
      split at read
      next => exact absurd read Attempt.fail_ne_ok
      next present =>
        obtain ⟨others, later, same⟩ := Attempt.bind_eq_ok.mp read
        cases same
        exact ⟨child, others, ⟨Attempt.inside_eq_ok.mp first, present⟩, inductionHypothesis.mp later, rfl⟩
    · rintro ⟨child, others, ⟨first, present⟩, later, rfl⟩
      refine ⟨child, Attempt.inside_eq_ok.mpr first, ?_⟩
      rw [inductionHypothesis.mpr later]
      split
      · exact absurd rfl present
      · rfl

/-- A combinator whose one member has its name. -/
theorem combinator_single (name : String) (json : Json) {found : List Condition} :
    combinator name [(name, ⟨json, readings json⟩)] = .ok found ↔
      (json = .null ∧ found = []) ∨
        ∃ items, json = .array items ∧ children 0 (items.map ofJson) = .ok found := by
  cases json with
  | null => simp [combinator, Record.read, Record.field?, combinatorFields, children, eq_comm]
  | array items => simp [combinator, Record.read, Record.field?, combinatorFields, readings]
  | bool | number | string | object =>
    simp [combinator, Record.read, Record.field?, combinatorFields, Attempt.bind_eq_ok, Attempt.inside_eq_ok,
      Attempt.fail_ne_ok]

/-- A combinator has its one member and no other. -/
theorem eq_single_of_combinator {name : String} {members : List (String × Json)}
    (unlike : (members.map fun member => Record.folded member.1).Nodup)
    (present : name ∈ members.map (·.1)) {found : List Condition}
    (read : combinator name (membersOf members) = .ok found) : ∃ json, members = [(name, json)] := by
  obtain ⟨items, gathered, _⟩ := Attempt.bind_eq_ok.mp read
  have takes := Record.read_eq_ok_iff.mp (Attempt.inside_eq_ok.mp gathered)
  have known : ∀ record, ∀ field ∈ combinatorFields name record, field.1 ∈ [name] := by
    simp [combinatorFields]
  have declared := takes.declared known
  have all : ∀ member ∈ members, Record.folded member.1 = Record.folded name := by
    intro member within
    obtain ⟨_, known, same⟩ := declared (member.1, ⟨member.2, readings member.2⟩)
      (by rw [membersOf_eq]; exact List.mem_map_of_mem within)
    rw [same, List.mem_singleton.mp known]
  rcases members with _ | ⟨⟨key, json⟩, _ | ⟨second, rest⟩⟩
  · cases present
  · rw [List.mem_singleton.mp present]
    exact ⟨json, rfl⟩
  · refine absurd ?_ (List.nodup_cons.mp unlike).1
    have same := (all second (by simp)).trans (all (key, json) (by simp)).symm
    exact List.mem_map.mpr ⟨second, List.mem_cons_self, same⟩

/-- Only null reads as no condition. -/
theorem Mirrors.eq_absent_iff {json : Json} {condition : Condition} (mirrors : Mirrors json condition) :
    condition = .absent ↔ json = .null := by
  cases mirrors with
  | absent => simp
  | empty connective => cases connective <;> simp [Connective.combine]
  | combination connective => cases connective <;> simp [Connective.combine]
  | comparison => simp

theorem each_iff {items : List Json} {found : List Condition}
    (inductionHypothesis : ∀ item ∈ items, ∀ condition,
      ofJson item = .ok condition ↔ Mirrors item condition) :
    List.Forall₂ (fun item child => ofJson item = .ok child ∧ child ≠ .absent) items found ↔
      (∀ item ∈ items, item ≠ .null) ∧ List.Forall₂ Mirrors items found := by
  induction items generalizing found with
  | nil => simp
  | cons item rest listHypothesis =>
    obtain ⟨first, others⟩ := List.forall_mem_cons.mp inductionHypothesis
    rw [List.forall₂_cons_left_iff, List.forall₂_cons_left_iff, List.forall_mem_cons]
    constructor
    · rintro ⟨child, later, ⟨read, present⟩, reads, rfl⟩
      obtain ⟨presents, mirror⟩ := (listHypothesis others).mp reads
      have mirrors := (first child).mp read
      exact ⟨⟨mt mirrors.eq_absent_iff.mpr present, presents⟩, child, later, mirrors, mirror, rfl⟩
    · rintro ⟨⟨present, presents⟩, child, later, mirrors, mirror, rfl⟩
      exact ⟨child, later, ⟨(first child).mpr mirrors, mt mirrors.eq_absent_iff.mp present⟩,
        (listHypothesis others).mpr ⟨presents, mirror⟩, rfl⟩

/-- The keys of a comparison are no combinator's. -/
theorem not_declared {members : List (String × Json)} {connective : Connective}
    (present : connective.key ∈ members.map (·.1)) :
    ¬ ∀ member ∈ members, ∃ name ∈ comparisonNames, Record.sameName member.1 name = true := by
  intro declared
  obtain ⟨member, within, same⟩ := List.mem_map.mp present
  obtain ⟨name, known, equal⟩ := declared member within
  have apart : ∀ name ∈ comparisonNames, ¬ Record.sameName connective.key name = true := by
    cases connective <;> decide
  exact apart name known (same ▸ equal)

/-- An object with the key of a combinator is read as one. -/
theorem combinator_eq_ok_iff {connective : Connective} {members : List (String × Json)}
    (unlike : (members.map fun member => Record.folded member.1).Nodup)
    (present : connective.key ∈ members.map (·.1)) {found : List Condition}
    (inductionHypothesis : ∀ member ∈ members, ∀ items, member.2 = .array items → ∀ item ∈ items,
      ∀ condition, ofJson item = .ok condition ↔ Mirrors item condition) :
    combinator connective.key (membersOf members) = .ok found ↔
      Mirrors (.object members) (connective.combine found) := by
  constructor
  · intro read
    obtain ⟨json, rfl⟩ := eq_single_of_combinator unlike present read
    rw [membersOf_eq, List.map_singleton, combinator_single] at read
    obtain ⟨rfl, rfl⟩ | ⟨items, rfl, read⟩ := read
    · exact .empty connective
    · rw [children_eq_ok_iff, List.forall₂_map_left_iff,
        each_iff (inductionHypothesis _ List.mem_cons_self items rfl)] at read
      exact .combination connective read.1 read.2
  · generalize same : connective.combine found = condition
    intro mirrors
    cases mirrors with
    | empty other =>
      obtain rfl := Connective.key_injective (List.mem_singleton.mp present)
      rw [membersOf_eq, List.map_singleton, combinator_single]
      exact .inl ⟨rfl, connective.combine_injective same⟩
    | combination other presents each =>
      obtain rfl := Connective.key_injective (List.mem_singleton.mp present)
      obtain rfl := connective.combine_injective same
      rw [membersOf_eq, List.map_singleton, combinator_single]
      refine .inr ⟨_, rfl, ?_⟩
      rw [children_eq_ok_iff, List.forall₂_map_left_iff,
        each_iff (inductionHypothesis _ List.mem_cons_self _ rfl)]
      exact ⟨presents, each⟩
    | comparison compares => exact absurd compares.declared (not_declared present)

/-! ### Comparisons -/

section Comparing

variable {members : List (String × Json)}
  (unlike : (members.map fun member => Record.folded member.1).Nodup)

include unlike

theorem compares_of_takes {found : Comparison}
    (takes : Record.Takes comparisonFields (membersOf members) ⟨"", "", .null⟩ found) :
    Compares members found := by
  rw [membersOf_eq] at takes
  have apart : (comparisonNames.map Record.folded).Nodup := by decide
  have clear : ∀ parameter ∈ Comparison.parameters ⟨"", "", .null⟩,
      parameter.content.cleared = parameter.content := by simp [Comparison.parameters, Record.Content.cleared]
  obtain ⟨reads, _⟩ := takes.reads (fun json => ⟨json, readings json⟩) updates_comparison
    (fun _ => apart) clear unlike fun _ => rfl
  refine ⟨?_, ?_, ?_, ?_⟩
  · intro member within
    obtain ⟨parameter, known, same⟩ := reads.declared member within
    exact ⟨parameter.name, List.mem_map_of_mem known, Record.sameName_iff.mpr same⟩
  · have taken := reads.taken ⟨"column", .text found.column, false⟩ (by simp [Comparison.parameters])
    exact Record.denotesText_iff.mpr ((Record.Content.stored_eq_iff fun _ _ => Record.Content.text.inj).mp taken)
  · have taken := reads.taken ⟨"operator", .text found.operator, false⟩ (by simp [Comparison.parameters])
    exact Record.denotesText_iff.mpr ((Record.Content.stored_eq_iff fun _ _ => Record.Content.text.inj).mp taken)
  · have taken := reads.taken ⟨"value", .value found.value, false⟩ (by simp [Comparison.parameters])
    exact Record.value_eq_iff.mp ((Record.Content.stored_eq_iff fun _ _ => Record.Content.value.inj).mp taken)

/-- The fields of a comparison take what says its parts, whatever they hold. -/
theorem Compares.takes {found : Comparison} (compares : Compares members found) :
    Record.Takes comparisonFields (membersOf members) ⟨"", "", .null⟩ found := by
  have total : ∀ member ∈ membersOf members, ∀ record, ∃ store next,
      Record.field? (comparisonFields record) member.1 = some store ∧
        store member.2 = .ok (next, none) := by
    rw [membersOf_eq]
    refine List.forall_mem_map.mpr fun member within record => ?_
    obtain ⟨name, known, same⟩ := compares.declared member within
    obtain ⟨field, declared, rfl⟩ := List.mem_map.mp
      (show name ∈ (comparisonFields record).map (·.1) from known)
    obtain ⟨store, stored⟩ := Option.isSome_iff_exists.mp
      (Record.isSome_field? declared (Record.sameName_iff.mp same))
    obtain ⟨other, declared, same⟩ := Record.exists_of_field?_eq_some stored
    have denotes := Record.valueOf_eq_of_mem unlike within same
    simp only [comparisonFields, List.mem_cons, List.not_mem_nil, or_false, Prod.mk.injEq] at declared
    rcases declared with ⟨rfl, rfl⟩ | ⟨rfl, rfl⟩ | ⟨rfl, rfl⟩
    · obtain ⟨next, taken⟩ := (denotes ▸ compares.column).exists_text record.column
      exact ⟨_, { record with column := next }, stored, by simp [taken]⟩
    · obtain ⟨next, taken⟩ := (denotes ▸ compares.operator).exists_text record.operator
      exact ⟨_, { record with operator := next }, stored, by simp [taken]⟩
    · have taken : Record.value member.2 record.value = (found.value, none) :=
        Record.value_eq_iff.mpr (denotes ▸ compares.value)
      exact ⟨_, { record with value := found.value }, stored, by simp [taken]⟩
  obtain ⟨other, takes⟩ := Record.exists_takes total ⟨"", "", .null⟩
  have same := compares_of_takes unlike takes
  have column := same.column.unique compares.column
  have operator := same.operator.unique compares.operator
  have value := Option.some.inj (same.value.symm.trans compares.value)
  cases other
  cases found
  cases column
  cases operator
  cases value
  exact takes

end Comparing

/-! ### All documents -/

theorem any_membersOf {members : List (String × Json)} {name : String} :
    ((membersOf members).any fun member => member.1 == name) = true ↔ name ∈ members.map (·.1) := by
  rw [membersOf_eq, List.any_map, List.any_eq_true, List.mem_map]
  exact exists_congr fun member => and_congr_right' beq_iff_eq

theorem Mirrors.exists_combine {members : List (String × Json)} {condition : Condition}
    (mirrors : Mirrors (.object members) condition) (connective : Connective)
    (present : connective.key ∈ members.map (·.1)) : ∃ found, condition = connective.combine found := by
  cases mirrors with
  | empty other =>
    obtain rfl := Connective.key_injective (List.mem_singleton.mp present)
    exact ⟨_, rfl⟩
  | combination other =>
    obtain rfl := Connective.key_injective (List.mem_singleton.mp present)
    exact ⟨_, rfl⟩
  | comparison compares => exact absurd compares.declared (not_declared present)

section Object

variable {members : List (String × Json)} {condition : Condition}
  (unlike : (members.map fun member => Record.folded member.1).Nodup)
  (inductionHypothesis : ∀ member ∈ members, ∀ items, member.2 = .array items → ∀ item ∈ items,
    ∀ condition, ofJson item = .ok condition ↔ Mirrors item condition)

include unlike inductionHypothesis

theorem map_combinator_eq_ok_iff (connective : Connective)
    (present : connective.key ∈ members.map (·.1)) :
    (combinator connective.key (membersOf members)).map connective.combine = .ok condition ↔
      Mirrors (.object members) condition := by
  rw [Attempt.map_eq_ok]
  constructor
  · rintro ⟨found, read, rfl⟩
    exact (combinator_eq_ok_iff unlike present inductionHypothesis).mp read
  · intro mirrors
    obtain ⟨found, rfl⟩ := mirrors.exists_combine connective present
    exact ⟨found, (combinator_eq_ok_iff unlike present inductionHypothesis).mpr mirrors, rfl⟩

theorem ofMembers_eq_ok_iff :
    ofMembers (membersOf members) = .ok condition ↔ Mirrors (.object members) condition := by
  rw [ofMembers]
  simp only [Bool.and_eq_true, any_membersOf]
  split
  next both =>
    refine iff_of_false Attempt.fail_ne_ok fun mirrors => ?_
    obtain ⟨_, rfl⟩ := mirrors.exists_combine .all both.1
    obtain ⟨_, same⟩ := mirrors.exists_combine .any both.2
    cases same
  split
  next present => exact map_combinator_eq_ok_iff unlike inductionHypothesis .all present
  split
  next present => exact map_combinator_eq_ok_iff unlike inductionHypothesis .any present
  next noAll noAny =>
    rw [Attempt.map_eq_ok]
    constructor
    · rintro ⟨found, read, rfl⟩
      exact .comparison (compares_of_takes unlike (Record.read_eq_ok_iff.mp (Attempt.inside_eq_ok.mp read)))
    · intro mirrors
      cases mirrors with
      | empty connective => cases connective <;> simp_all [Connective.key]
      | combination connective => cases connective <;> simp_all [Connective.key]
      | comparison compares =>
        exact ⟨_, Attempt.inside_eq_ok.mpr (Record.read_eq_ok_iff.mpr (compares.takes unlike)), rfl⟩

end Object

theorem ofJson_eq_ok_iff {json : Json} (distinct : json.Distinct) :
    ∀ condition, ofJson json = .ok condition ↔ Mirrors json condition := by
  induction json using Json.induction_items with
  | plain json noObject =>
    intro condition
    constructor
    · intro read
      cases json with
      | null =>
        cases read
        exact .absent
      | object members => exact absurd rfl (noObject members)
      | _ => cases read
    · rintro (_ | _ | _ | _)
      · rfl
      all_goals exact absurd rfl (noObject _)
  | object members inductionHypothesis =>
    intro condition
    rw [ofJson]
    refine ofMembers_eq_ok_iff distinct.unlike fun member within items same item among => ?_
    have nested := (same ▸ distinct.member member within).item item among
    exact inductionHypothesis member within items same item among nested

theorem exists_each_iff {items : List Json} :
    (∃ found, List.Forall₂ Mirrors items found) ↔ ∀ item ∈ items, ∃ condition, Mirrors item condition := by
  induction items with
  | nil => simp
  | cons item rest inductionHypothesis =>
    rw [List.forall_mem_cons, ← inductionHypothesis]
    constructor
    · rintro ⟨_, _ | ⟨mirrors, later⟩⟩
      exact ⟨⟨_, mirrors⟩, _, later⟩
    · rintro ⟨⟨first, mirrors⟩, others, later⟩
      exact ⟨first :: others, .cons mirrors later⟩

/-- The accepted documents are those that some condition mirrors. -/
theorem accepted_iff {json : Json} : Accepted json ↔ ∃ condition, Mirrors json condition := by
  constructor
  · intro accepted
    induction accepted with
    | null => exact ⟨_, .absent⟩
    | empty connective => exact ⟨_, .empty connective⟩
    | combination connective present _ inductionHypothesis =>
      obtain ⟨found, each⟩ := exists_each_iff.mpr inductionHypothesis
      exact ⟨_, .combination connective present each⟩
    | comparison declared column operator value =>
      obtain ⟨columnName, column⟩ := column
      obtain ⟨operatorName, operator⟩ := operator
      obtain ⟨found, denotes⟩ := Option.isSome_iff_exists.mp (Value.isSome_ofJson?_iff _ |>.mpr value)
      exact ⟨.simple ⟨columnName, operatorName, found⟩, .comparison ⟨declared, column, operator, denotes⟩⟩
  · induction json using Json.induction_items with
    | plain json noObject =>
      rintro ⟨_, _ | _ | _ | _⟩
      · exact .null
      all_goals exact absurd rfl (noObject _)
    | object members inductionHypothesis =>
      rintro ⟨condition, mirrors⟩
      cases mirrors with
      | empty connective => exact .empty connective
      | combination connective present each =>
        exact .combination connective present fun item among =>
          inductionHypothesis _ List.mem_cons_self _ rfl item among
            (exists_each_iff.mp ⟨_, each⟩ item among)
      | comparison compares =>
        exact .comparison compares.declared ⟨_, compares.column⟩ ⟨_, compares.operator⟩
          (Value.isSome_ofJson?_iff _ |>.mp (Option.isSome_iff_exists.mpr ⟨_, compares.value⟩))

/-! ### Refusals -/

theorem refusesAs_children {index : Nat} {attempts : List (Attempt Condition)}
    (each : ∀ attempt ∈ attempts, Attempt.RefusesAs .invalidCondition attempt) :
    Attempt.RefusesAs .invalidCondition (children index attempts) := by
  induction attempts generalizing index with
  | nil => exact Attempt.refusesAs_ok
  | cons attempt rest inductionHypothesis =>
    obtain ⟨first, others⟩ := List.forall_mem_cons.mp each
    rw [children]
    refine Attempt.refusesAs_bind (Attempt.refusesAs_inside rfl first) fun child => ?_
    split
    · exact Attempt.refusesAs_fail rfl
    · exact Attempt.refusesAs_bind (inductionHypothesis others) fun _ => Attempt.refusesAs_ok

theorem refusesAs_combinator {name : String} {members : List (String × Member)}
    (each : ∀ member ∈ members, ∀ attempt ∈ member.2.children,
      Attempt.RefusesAs .invalidCondition attempt) :
    Attempt.RefusesAs .invalidCondition (combinator name members) := by
  intro failure failed
  obtain early | ⟨items, gathered, late⟩ := Attempt.bind_eq_error.mp failed
  · refine Record.refusesAs_read ?_ failure early
    intro record field declared member within
    obtain rfl := List.mem_singleton.mp declared
    obtain ⟨key, json, children⟩ := member
    cases json with
    | null | array => exact ⟨_, none, rfl, nofun⟩
    | bool | number | string | object => exact ⟨_, some .wrongType, rfl, by simp [Cause.kind?]⟩
  · refine refusesAs_children ?_ failure late
    have unread : ∀ attempt ∈ ([] : List (Attempt Condition)),
      Attempt.RefusesAs .invalidCondition attempt := nofun
    refine Record.read_keeps (fun items => ∀ attempt ∈ items, Attempt.RefusesAs .invalidCondition attempt)
      ?_ unread (Attempt.inside_eq_ok.mp gathered)
    intro record _ field declared member within next misfit taken
    obtain rfl := List.mem_singleton.mp declared
    simp only at taken
    split at taken <;> cases taken
    · exact unread
    · exact each member within
    · exact unread

theorem refusesAs_comparison {members : List (String × Member)} {start : Comparison} :
    Attempt.RefusesAs .invalidCondition
      (Attempt.inside (.seenAs .invalidCondition) (Record.read comparisonFields members start none)) := by
  have text (json : Json) (held : String) : ∀ cause ∈ (Record.text json held).2, cause.kind? = none := by
    cases json <;> simp [Record.text, Record.misfit, Cause.kind?]
  have value (json : Json) (held : Value) : ∀ cause ∈ (Record.value json held).2, cause.kind? = none := by
    unfold Record.value
    split <;> simp [Record.misfit, Cause.kind?]
  refine Record.refusesAs_read ?_
  intro record field declared member _
  simp only [comparisonFields, List.mem_cons, List.not_mem_nil, or_false] at declared
  rcases declared with rfl | rfl | rfl
  · exact ⟨_, _, rfl, text member.2.json record.column⟩
  · exact ⟨_, _, rfl, text member.2.json record.operator⟩
  · exact ⟨_, _, rfl, value member.2.json record.value⟩

theorem refusesAs_ofMembers {members : List (String × Member)}
    (each : ∀ member ∈ members, ∀ attempt ∈ member.2.children,
      Attempt.RefusesAs .invalidCondition attempt) :
    Attempt.RefusesAs .invalidCondition (ofMembers members) := by
  unfold ofMembers
  simp only
  split
  · exact Attempt.refusesAs_fail rfl
  split
  · exact Attempt.refusesAs_map (refusesAs_combinator each)
  split
  · exact Attempt.refusesAs_map (refusesAs_combinator each)
  · exact Attempt.refusesAs_map refusesAs_comparison

/-- A document that is refused, at whatever depth, is refused as a condition. -/
theorem refusesAs_ofJson (json : Json) : Attempt.RefusesAs .invalidCondition (ofJson json) := by
  induction json using Json.induction_items with
  | plain json noObject =>
    cases json with
    | null => exact Attempt.refusesAs_ok
    | object members => exact absurd rfl (noObject members)
    | _ =>
      rintro failure ⟨⟩
      decide
  | object members inductionHypothesis =>
    rw [ofJson]
    refine refusesAs_ofMembers ?_
    rw [membersOf_eq]
    refine List.forall_mem_map.mpr ?_
    rintro ⟨key, json⟩ within
    cases json with
    | array items => exact List.forall_mem_map.mpr (inductionHypothesis _ within items rfl)
    | _ => rintro _ ⟨⟩

end Condition

end StepQuery
