import StepQuery.Proofs.Codec.Record

/-!
Conditions and branches are read back from what is written for them.  The readings of nested
conditions and branches are computed along with the members of an object, so what is known of the
parts is carried from the members to the object.
-/

namespace StepQuery

namespace Condition

/-- The conditions that documents write: only values of documents are compared with, and no child of
a combinator is absent. -/
inductive Denoted : Condition → Prop
  | absent : Denoted .absent
  | simple {comparison : Comparison} (value : comparison.value.Denoted) :
      Denoted (.simple comparison)
  | all {children : List Condition} (each : ∀ child ∈ children, Denoted child)
      (present : ∀ child ∈ children, child ≠ .absent) : Denoted (.all children)
  | any {children : List Condition} (each : ∀ child ∈ children, Denoted child)
      (present : ∀ child ∈ children, child ≠ .absent) : Denoted (.any children)

/-! ### Reading -/

theorem children_spec {index : Nat} {items : List (Attempt Condition)} {found : List Condition}
    (read : children index items = .ok found) :
    (∀ child ∈ found, (.ok child : Attempt Condition) ∈ items) ∧
      ∀ child ∈ found, child ≠ .absent := by
  induction items generalizing index found with
  | nil =>
    cases read
    simp
  | cons item rest inductionHypothesis =>
    unfold children at read
    obtain ⟨child, first, read⟩ := Attempt.bind_eq_ok.mp read
    rw [Attempt.inside_eq_ok] at first
    split at read
    next => exact absurd read Attempt.fail_ne_ok
    next present =>
      obtain ⟨others, later, read⟩ := Attempt.bind_eq_ok.mp read
      cases read
      obtain ⟨within, known⟩ := inductionHypothesis later
      constructor
      · refine List.forall_mem_cons.mpr ⟨by simp [first], ?_⟩
        exact fun child member => List.mem_cons_of_mem _ (within child member)
      · exact List.forall_mem_cons.mpr ⟨present, known⟩

/-- Every condition among the readings of a member is one that documents write. -/
def Member.Sound (member : Member) : Prop :=
  ∀ child, (.ok child : Attempt Condition) ∈ member.children → Denoted child

theorem combinator_spec {name : String} {members : List (String × Member)}
    {found : List Condition} (sound : ∀ member ∈ members, member.2.Sound)
    (read : combinator name members = .ok found) :
    (∀ child ∈ found, Denoted child) ∧ ∀ child ∈ found, child ≠ .absent := by
  obtain ⟨items, gathered, read⟩ := Attempt.bind_eq_ok.mp read
  rw [Attempt.inside_eq_ok] at gathered
  let Holds (items : List (Attempt Condition)) : Prop :=
    ∀ child, (.ok child : Attempt Condition) ∈ items → Denoted child
  have holds : Holds items := by
    refine Record.read_keeps Holds ?_ (fun _ => by simp) gathered
    intro record start field declared member within next misfit taken
    obtain rfl := List.mem_singleton.mp declared
    simp only at taken
    split at taken <;> cases taken
    · exact fun _ => by simp
    · exact sound member within
    · exact fun _ => by simp
  obtain ⟨within, present⟩ := children_spec read
  exact ⟨fun child member => holds child (within child member), present⟩

theorem denoted_of_comparison {members : List (String × Member)} {start found : Comparison}
    (value : start.value.Denoted) {misfit : Option Cause}
    (read : Record.read comparisonFields members start misfit = .ok found) :
    found.value.Denoted := by
  refine Record.read_keeps (fun comparison => comparison.value.Denoted) ?_ value read
  intro held denoted field declared member within next misfit taken
  simp only [comparisonFields, List.mem_cons, List.not_mem_nil, or_false] at declared
  rcases declared with rfl | rfl | rfl
  · cases taken
    exact denoted
  · cases taken
    exact denoted
  · cases taken
    change (Record.value member.2.json held.value).1.Denoted
    unfold Record.value
    split
    next denotes => exact Value.denoted_of_ofJson? denotes
    next => exact denoted

theorem denoted_of_ofMembers {members : List (String × Member)} {condition : Condition}
    (sound : ∀ member ∈ members, member.2.Sound) (read : ofMembers members = .ok condition) :
    Denoted condition := by
  unfold ofMembers at read
  simp only at read
  split at read
  · exact absurd read Attempt.fail_ne_ok
  split at read
  · obtain ⟨children, combined, rfl⟩ := Attempt.map_eq_ok.mp read
    obtain ⟨each, present⟩ := combinator_spec sound combined
    exact .all each present
  split at read
  · obtain ⟨children, combined, rfl⟩ := Attempt.map_eq_ok.mp read
    obtain ⟨each, present⟩ := combinator_spec sound combined
    exact .any each present
  · obtain ⟨comparison, compared, rfl⟩ := Attempt.map_eq_ok.mp read
    exact .simple (denoted_of_comparison .null (Attempt.inside_eq_ok.mp compared))

mutual

theorem denoted_of_ofJson : ∀ {json : Json} {condition : Condition},
    ofJson json = .ok condition → Denoted condition
  | .null, _, read => by
    cases read
    exact .absent
  | .object members, _, read => by
    rw [ofJson] at read
    exact denoted_of_ofMembers (sound_membersOf members) read
  | .bool _, _, read | .number _, _, read | .string _, _, read | .array _, _, read => by
    cases read

theorem sound_membersOf : ∀ (members : List (String × Json)),
    ∀ member ∈ membersOf members, member.2.Sound
  | [] => by simp [membersOf]
  | (key, .array items) :: rest => by
    rw [membersOf]
    exact List.forall_mem_cons.mpr ⟨denoted_of_itemsOf items, sound_membersOf rest⟩
  | (key, .null) :: rest | (key, .bool _) :: rest | (key, .number _) :: rest
  | (key, .string _) :: rest | (key, .object _) :: rest => by
    rw [membersOf]
    · exact List.forall_mem_cons.mpr ⟨fun _ => by simp, sound_membersOf rest⟩
    · nofun

theorem denoted_of_itemsOf : ∀ (items : List Json) (child : Condition),
    (.ok child : Attempt Condition) ∈ itemsOf items → Denoted child
  | [], _, within => by simp [itemsOf] at within
  | item :: rest, child, within => by
    rw [itemsOf] at within
    rcases List.mem_cons.mp within with first | later
    · exact denoted_of_ofJson first.symm
    · exact denoted_of_itemsOf rest child later

end

/-! ### Writing -/

/-- A condition is written as a document that reads as it. -/
def Writes (condition : Condition) (json : Json) : Prop :=
  condition.toJson? = some json ∧ json.Plain ∧ ofJson json = .ok condition

theorem exists_items {conditions : List Condition}
    (each : ∀ child ∈ conditions, ∃ json, Writes child json) :
    ∃ written, toItems? conditions = some written ∧ (∀ json ∈ written, json.Plain) ∧
      itemsOf written = conditions.map .ok := by
  induction conditions with
  | nil => exact ⟨[], rfl, by simp, rfl⟩
  | cons child rest inductionHypothesis =>
    obtain ⟨first, others⟩ := List.forall_mem_cons.mp each
    obtain ⟨json, writes, plain, reads⟩ := first
    obtain ⟨written, writesAll, plains, readsAll⟩ := inductionHypothesis others
    refine ⟨json :: written, ?_, List.forall_mem_cons.mpr ⟨plain, plains⟩, ?_⟩
    · simp [toItems?, writes, writesAll]
    · simp [itemsOf, reads, readsAll]

theorem children_map_ok {conditions : List Condition} (index : Nat)
    (present : ∀ child ∈ conditions, child ≠ .absent) :
    children index (conditions.map .ok) = .ok conditions := by
  induction conditions generalizing index with
  | nil => rfl
  | cons child rest inductionHypothesis =>
    obtain ⟨first, others⟩ := List.forall_mem_cons.mp present
    rw [List.map_cons, children, Attempt.inside_ok, Attempt.ok_bind, inductionHypothesis _ others]
    cases child <;> first | contradiction | rfl

theorem combinator_written (name : String) {conditions : List Condition} {written : List Json}
    (present : ∀ child ∈ conditions, child ≠ .absent)
    (reads : itemsOf written = conditions.map .ok) :
    combinator name [(name, ⟨.array written, itemsOf written⟩)] = .ok conditions := by
  have gathered : Record.read (combinatorFields name) [(name, ⟨.array written, itemsOf written⟩)]
      [] none = .ok (itemsOf written) := by
    simp [Record.read, Record.field?, combinatorFields]
  unfold combinator
  rw [gathered, Attempt.inside_ok, Attempt.ok_bind, reads, children_map_ok 0 present]

/-- A member keeps its document, whatever its readings are. -/
theorem membersOf_cons (key : String) (json : Json) (rest : List (String × Json)) :
    ∃ children, membersOf ((key, json) :: rest) = (key, ⟨json, children⟩) :: membersOf rest := by
  cases json <;> simp [membersOf]

theorem comparison_written {comparison : Comparison} {json : Json}
    (writes : comparison.value.Writes json) :
    ofJson (.object [("column", .string comparison.column),
      ("operator", .string comparison.operator), ("value", json)]) =
        .ok (.simple comparison) := by
  obtain ⟨children, members⟩ := membersOf_cons "value" json []
  have value := Record.value_of_writes writes .null
  simp [ofJson, membersOf, members, ofMembers, Record.read, Record.field?, comparisonFields,
    Record.text, value]

theorem Denoted.writes {condition : Condition} (denoted : Denoted condition) :
    ∃ json, Writes condition json := by
  induction denoted with
  | absent => exact ⟨.null, rfl, .null, rfl⟩
  | @simple comparison value =>
    obtain ⟨json, writes⟩ := value.writes
    refine ⟨_, ?_, ?_, comparison_written writes⟩
    · simp [toJson?, comparisonJson, writes.1]
    · exact .object (by simp [Json.Plain.string, writes.2.1])
  | all each present inductionHypothesis =>
    obtain ⟨written, writes, plain, reads⟩ := exists_items inductionHypothesis
    refine ⟨.object [("and", .array written)], ?_, .object (by simp [Json.Plain.array plain]), ?_⟩
    · simp [toJson?, writes]
    · simp [ofJson, membersOf, ofMembers, combinator_written "and" present reads]
  | any each present inductionHypothesis =>
    obtain ⟨written, writes, plain, reads⟩ := exists_items inductionHypothesis
    refine ⟨.object [("or", .array written)], ?_, .object (by simp [Json.Plain.array plain]), ?_⟩
    · simp [toJson?, writes]
    · simp [ofJson, membersOf, ofMembers, combinator_written "or" present reads]

end Condition

namespace Value

/-- An object with an `if`, which an else takes for a further branch. -/
def LooksLikeBranch : Value → Prop
  | .map fields => "if" ∈ fields.map (·.1)
  | _ => False

theorem names_of_ofMembers? {members : List (String × Json)} {entries : List (String × Value)}
    (read : ofMembers? members = some entries) : entries.map (·.1) = members.map (·.1) := by
  induction members generalizing entries with
  | nil =>
    cases read
    rfl
  | cons member rest inductionHypothesis =>
    rw [ofMembers?] at read
    obtain ⟨value, first, read⟩ := Option.bind_eq_some_iff.mp read
    obtain ⟨others, later, read⟩ := Option.bind_eq_some_iff.mp read
    cases read
    simp [inductionHypothesis later]

theorem names_of_toMembers? {fields : List (String × Value)} {members : List (String × Json)}
    (written : toMembers? fields = some members) : members.map (·.1) = fields.map (·.1) := by
  induction fields generalizing members with
  | nil =>
    cases written
    rfl
  | cons entry rest inductionHypothesis =>
    rw [toMembers?] at written
    obtain ⟨json, first, written⟩ := Option.bind_eq_some_iff.mp written
    obtain ⟨others, later, written⟩ := Option.bind_eq_some_iff.mp written
    cases written
    simp [inductionHypothesis later]

end Value

namespace Branch

/-- The reading of a document as a continuation of the chain, if it has the shape of one. -/
def continuation? : Json → Option (Attempt Branch)
  | .object members =>
    if members.any fun member => member.1 == "if" then some (ofJson (.object members)) else none
  | _ => none

theorem continuation?_object_eq_none {members : List (String × Json)} :
    continuation? (.object members) = none ↔ "if" ∉ members.map (·.1) := by
  have same : (members.any fun member => member.1 == "if") = true ↔
      "if" ∈ members.map (·.1) := by
    simp [List.any_eq_true]
  by_cases present : "if" ∈ members.map (·.1)
  · simp [continuation?, same.mpr present, present]
  · simp [continuation?, mt same.mp present, present]

theorem membersOf_cons (key : String) (json : Json) (rest : List (String × Json)) :
    membersOf ((key, json) :: rest) = (key, ⟨json, continuation? json⟩) :: membersOf rest := by
  cases json <;> simp [membersOf, continuation?]

/-- A value that is no branch is not written as one. -/
theorem continuation?_of_toJson? {value : Value} {json : Json}
    (plain : ¬ value.LooksLikeBranch) (written : value.toJson? = some json) :
    continuation? json = none := by
  cases json with
  | object members =>
    apply continuation?_object_eq_none.mpr
    cases value with
    | map fields =>
      rw [Value.toJson?] at written
      obtain ⟨found, writes, same⟩ := Option.map_eq_some_iff.mp written
      cases same
      rw [Value.names_of_toMembers? writes]
      exact plain
    | list items =>
      rw [Value.toJson?] at written
      obtain ⟨found, writes, same⟩ := Option.map_eq_some_iff.mp written
      cases same
    | single number | double number =>
      rw [Value.toJson?] at written
      split at written <;> cases written
    | _ => cases written
  | _ => rfl

/-- A document that does not continue the chain denotes no branch. -/
theorem not_looksLikeBranch {value : Value} {json : Json}
    (plain : continuation? json = none) (reads : Value.ofJson? json = some value) :
    ¬ value.LooksLikeBranch := by
  cases value with
  | map fields =>
    intro looks
    cases json with
    | object members =>
      rw [Value.ofJson?] at reads
      obtain ⟨entries, found, same⟩ := Option.map_eq_some_iff.mp reads
      cases same
      obtain ⟨entry, within, name⟩ := List.mem_map.mp looks
      apply continuation?_object_eq_none.mp plain
      rw [← Value.names_of_ofMembers? found, ← name]
      exact List.mem_map_of_mem (Fields.mem_ofList within)
    | number literal =>
      rw [Value.ofJson?] at reads
      obtain ⟨number, _, same⟩ := Option.map_eq_some_iff.mp reads
      cases same
    | array items =>
      rw [Value.ofJson?] at reads
      obtain ⟨values, _, same⟩ := Option.map_eq_some_iff.mp reads
      cases same
    | _ => cases reads
  | _ => exact id

/-- The branches that documents write: an alternative that ends the chain does not look like a
further branch. -/
inductive Denoted : Branch → Prop
  | last {test : Condition} {consequent alternative : Value} (condition : test.Denoted)
      (first : consequent.Denoted) (second : alternative.Denoted)
      (ends : ¬ alternative.LooksLikeBranch) : Denoted (.last test consequent alternative)
  | chain {test : Condition} {consequent : Value} {next : Branch} (condition : test.Denoted)
      (first : consequent.Denoted) (others : Denoted next) : Denoted (.chain test consequent next)

/-! ### Reading -/

/-- A member comes with its reading as a continuation, which is a branch that documents write. -/
def Member.Sound (member : Member) : Prop :=
  member.branch = continuation? member.json ∧
    ∀ branch, member.branch = some (.ok branch) → Denoted branch

/-- What is known of the parts of a branch object while its members are read. -/
def Parts.Sound (parts : Parts) : Prop :=
  parts.next = continuation? parts.alternative ∧
    ∀ branch, parts.next = some (.ok branch) → Denoted branch

theorem ofJson?_of_plainValue {place : Place} {json : Json} {value : Value}
    (read : plainValue place json = .ok value) : Value.ofJson? json = some value := by
  unfold plainValue at read
  split at read
  next found =>
    cases read
    exact found
  next => cases read

theorem denoted_of_ofParts {parts : Parts} {branch : Branch} (sound : parts.Sound)
    (read : ofParts parts = .ok branch) : Denoted branch := by
  obtain ⟨test, tested, read⟩ := Attempt.bind_eq_ok.mp read
  obtain ⟨consequent, first, read⟩ := Attempt.bind_eq_ok.mp read
  have condition := Condition.denoted_of_ofJson (Attempt.inside_eq_ok.mp tested)
  have denoted := Value.denoted_of_ofJson? (ofJson?_of_plainValue first)
  obtain ⟨next, nested⟩ := sound
  split at read
  next attempt found =>
    obtain ⟨others, continued, read⟩ := Attempt.bind_eq_ok.mp read
    cases read
    rw [Attempt.inside_eq_ok.mp continued] at found
    exact .chain condition denoted (nested others found)
  next absent =>
    obtain ⟨alternative, second, read⟩ := Attempt.bind_eq_ok.mp read
    cases read
    have reads := ofJson?_of_plainValue second
    exact .last condition denoted (Value.denoted_of_ofJson? reads)
      (not_looksLikeBranch (next.symm.trans absent) reads)

theorem partFields_keeps {parts next : Parts} (sound : parts.Sound) {misfit : Option Cause}
    {member : Member} (known : member.Sound) {field : String × (Member → Attempt (Parts × _))}
    (declared : field ∈ partFields parts) (taken : field.2 member = .ok (next, misfit)) :
    next.Sound := by
  simp only [partFields, List.mem_cons, List.not_mem_nil, or_false] at declared
  rcases declared with rfl | rfl | rfl
  · cases taken
    exact sound
  · cases taken
    exact sound
  · cases taken
    exact known

theorem stepFields_keeps {parts next : Parts} (sound : parts.Sound) {misfit : Option Cause}
    {member : Member} (known : member.Sound) {field : String × (Member → Attempt (Parts × _))}
    (declared : field ∈ stepFields parts) (taken : field.2 member = .ok (next, misfit)) :
    next.Sound := by
  rcases List.mem_cons.mp declared with rfl | declared
  · cases taken
    exact sound
  · exact partFields_keeps sound known declared taken

theorem sound_of_readParts {fields : Parts → List (String × (Member → Attempt (Parts × _)))}
    (keeps : ∀ {parts next : Parts}, parts.Sound → ∀ {misfit : Option Cause} {member : Member},
      member.Sound → ∀ {field}, field ∈ fields parts → field.2 member = .ok (next, misfit) →
        next.Sound)
    {members : List (String × Member)} (known : ∀ member ∈ members, member.2.Sound)
    {parts : Parts} (read : readParts fields members = .ok parts) : parts.Sound := by
  have start : Parts.Sound ⟨"", .null, .null, .null, none⟩ := ⟨rfl, nofun⟩
  refine Record.read_keeps Parts.Sound ?_ start (Attempt.inside_eq_ok.mp read)
  intro parts sound field declared member within next misfit taken
  exact keeps sound (known member within) declared taken

mutual

theorem denoted_of_ofJson : ∀ {json : Json} {branch : Branch}, ofJson json = .ok branch →
    Denoted branch
  | .null, _, read => by
    cases read
    exact .last .absent .null .null id
  | .object members, _, read => by
    rw [ofJson] at read
    obtain ⟨parts, gathered, read⟩ := Attempt.bind_eq_ok.mp read
    exact denoted_of_ofParts
      (sound_of_readParts partFields_keeps (sound_membersOf members) gathered) read
  | .bool _, _, read | .number _, _, read | .string _, _, read | .array _, _, read => by
    cases read

theorem sound_membersOf : ∀ (members : List (String × Json)),
    ∀ member ∈ membersOf members, member.2.Sound
  | [] => by simp [membersOf]
  | (key, .object inner) :: rest => by
    rw [membersOf_cons]
    refine List.forall_mem_cons.mpr ⟨⟨rfl, ?_⟩, sound_membersOf rest⟩
    intro branch found
    simp only [continuation?] at found
    split at found
    · exact denoted_of_ofJson (Option.some.inj found)
    · contradiction
  | (key, .null) :: rest | (key, .bool _) :: rest | (key, .number _) :: rest
  | (key, .string _) :: rest | (key, .array _) :: rest => by
    rw [membersOf_cons]
    exact List.forall_mem_cons.mpr ⟨⟨rfl, nofun⟩, sound_membersOf rest⟩

end

/-! ### Writing -/

/-- The three members of a branch object, and what they are read as. -/
structure Writes (branch : Branch) (test consequent alternative : Json) : Prop where
  written : branch.toMembers? =
    some [("if", test), ("then", consequent), ("else", alternative)]
  plain : test.Plain ∧ consequent.Plain ∧ alternative.Plain
  reads : ∀ newColumn,
    ofParts ⟨newColumn, test, consequent, alternative, continuation? alternative⟩ = .ok branch

theorem plainValue_of_writes {value : Value} {json : Json} (writes : value.Writes json)
    (place : Place) : plainValue place json = .ok value := by
  unfold plainValue
  rw [writes.2.2]

theorem Writes.ofJson_eq {branch : Branch} {test consequent alternative : Json}
    (writes : Writes branch test consequent alternative) :
    ofJson (.object [("if", test), ("then", consequent), ("else", alternative)]) = .ok branch := by
  have gathered : readParts partFields (membersOf
      [("if", test), ("then", consequent), ("else", alternative)]) =
      .ok ⟨"", test, consequent, alternative, continuation? alternative⟩ := by
    simp [membersOf_cons, membersOf, readParts, Record.read, Record.field?, partFields]
  rw [ofJson, gathered]
  exact writes.reads ""

theorem Denoted.writes {branch : Branch} (denoted : Denoted branch) :
    ∃ test consequent alternative, Writes branch test consequent alternative := by
  induction denoted with
  | last condition first second ends =>
    obtain ⟨test, writesTest⟩ := condition.writes
    obtain ⟨consequent, writesFirst⟩ := first.writes
    obtain ⟨alternative, writesSecond⟩ := second.writes
    refine ⟨test, consequent, alternative, ?_, ⟨writesTest.2.1, writesFirst.2.1, writesSecond.2.1⟩,
      ?_⟩
    · simp [toMembers?, writesTest.1, writesFirst.1, writesSecond.1]
    · intro newColumn
      simp [ofParts, writesTest.2.2, plainValue_of_writes writesFirst,
        plainValue_of_writes writesSecond, continuation?_of_toJson? ends writesSecond.1]
  | chain condition first others inductionHypothesis =>
    obtain ⟨test, writesTest⟩ := condition.writes
    obtain ⟨consequent, writesFirst⟩ := first.writes
    obtain ⟨nextTest, nextConsequent, nextAlternative, writesNext⟩ := inductionHypothesis
    refine ⟨test, consequent, .object [("if", nextTest), ("then", nextConsequent),
      ("else", nextAlternative)], ?_, ⟨writesTest.2.1, writesFirst.2.1, .object ?_⟩, ?_⟩
    · simp [toMembers?, writesTest.1, writesFirst.1, writesNext.written]
    · simp [writesNext.plain]
    · intro newColumn
      simp [ofParts, writesTest.2.2, plainValue_of_writes writesFirst, continuation?,
        writesNext.ofJson_eq]

end Branch

end StepQuery
