import Mathlib
import StepQuery.Proofs.Codec.Operation

/-!
Pipelines are read back from what is written for them.  Steps and the pipelines written in place of
references nest in each other, so every statement comes for steps, references and lists of both.
-/

namespace StepQuery

mutual

/-- The steps that documents write. -/
def Step.Denoted : Step → Prop
  | .domain _ => True
  | .append none => True
  | .append (some sources) => Reference.AllDenoted sources
  | .join right _ _ => Reference.Denoted right
  | .transform operation => operation.Denoted

def Reference.Denoted : Reference → Prop
  | .named _ => True
  | .inline steps => Step.AllDenoted steps

def Reference.AllDenoted : List Reference → Prop
  | [] => True
  | first :: rest => Reference.Denoted first ∧ Reference.AllDenoted rest

def Step.AllDenoted : List Step → Prop
  | [] => True
  | first :: rest => Step.Denoted first ∧ Step.AllDenoted rest

end

mutual

/-- The step as it comes back from being written and read. -/
def Step.tidied : Step → Step
  | .domain name => .domain name
  | .append none => .append none
  | .append (some sources) => .append (some (Reference.allTidied sources))
  | .join right type on => .join (Reference.tidied right) type on
  | .transform operation => .transform operation.tidied

def Reference.tidied : Reference → Reference
  | .named name => .named name
  | .inline steps => .inline (Step.allTidied steps)

def Reference.allTidied : List Reference → List Reference
  | [] => []
  | first :: rest => Reference.tidied first :: Reference.allTidied rest

def Step.allTidied : List Step → List Step
  | [] => []
  | first :: rest => Step.tidied first :: Step.allTidied rest

end

/-- The pipeline with an absent list wherever a list is left out because it is empty. -/
def Pipeline.tidied (pipeline : Pipeline) : Pipeline := Step.allTidied pipeline

namespace Step

/-! ### Members -/

theorem insertMember_eq (key : String) (member : Member) (members : List (String × Member)) :
    insertMember key member members = Fields.set key member members := by
  induction members with
  | nil => rfl
  | cons held rest inductionHypothesis =>
    rw [insertMember, inductionHypothesis]
    rfl

theorem sortMembers_eq (members : List (String × Member)) :
    sortMembers members = Fields.ofList members := by
  unfold sortMembers Fields.ofList
  simp only [insertMember_eq]

theorem membersOf_eq (members : List (String × Json)) :
    membersOf members = members.map fun member =>
      (member.1, ⟨member.2, referenceOf member.2, sourcesOf member.2⟩) := by
  induction members with
  | nil => rfl
  | cons member rest inductionHypothesis =>
    rw [membersOf, inductionHypothesis]
    rfl

/-- A step is read by its name and its other members, whichever order they come in. -/
theorem ofMembers_named {name : String} {blank step : Step} (kind : blank? name = some blank)
    {members : List (String × Json)} (unnamed : ∀ member ∈ members, member.1 ≠ "name")
    (read : ofBody (Fields.ofList (membersOf members)) blank = .ok step) :
    ofMembers (membersOf (("name", .string name) :: members)) = .ok step := by
  have others : ∀ member ∈ membersOf members, member.1 ≠ "name" := by
    rw [membersOf_eq]
    exact List.forall_mem_map.mpr unnamed
  let first : Member := ⟨.string name, referenceOf (.string name), sourcesOf (.string name)⟩
  have found := Fields.get?_ofList_cons "name" first others
  have kept := Fields.filter_ofList_cons "name" first others
  unfold Fields.get? at found
  obtain ⟨entry, located, same⟩ := Option.map_eq_some_iff.mp found
  have called : nameOf (Fields.ofList (("name", first) :: membersOf members)) = .ok name := by
    simp [nameOf, located, same, first]
  rw [membersOf, ofMembers, sortMembers_eq]
  change (nameOf (Fields.ofList (("name", first) :: membersOf members)) >>= _) = _
  rw [called, Attempt.ok_bind, kept, kind]
  simp only [read, Attempt.inside_ok]

/-! ### Reading -/

/-- The readings of a member as references are such that documents write. -/
def Member.Sound (member : Member) : Prop :=
  (∀ reference, member.reference = .ok reference → reference.Denoted) ∧
    ∀ reference, (.ok reference : Attempt Reference) ∈ member.sources → reference.Denoted

theorem allDenoted_of_sources {readings : List (Attempt Reference)} {found : List Reference}
    (sound : ∀ reference, (.ok reference : Attempt Reference) ∈ readings → reference.Denoted)
    (read : sources readings = .ok found) : Reference.AllDenoted found := by
  induction readings generalizing found with
  | nil =>
    cases read
    trivial
  | cons reading rest inductionHypothesis =>
    unfold sources at read
    obtain ⟨first, denotes, read⟩ := Attempt.bind_eq_ok.mp read
    obtain ⟨others, later, read⟩ := Attempt.bind_eq_ok.mp read
    cases read
    exact ⟨sound first (by simp [denotes]),
      inductionHypothesis (fun reference within => sound reference (by simp [within])) later⟩

theorem denoted_of_ofBody {members : List (String × Member)} {blank step : Step}
    (sound : ∀ member ∈ members, member.2.Sound) (start : blank.Denoted)
    (read : ofBody members blank = .ok step) : step.Denoted := by
  cases blank with
  | domain name =>
    obtain ⟨found, _, rfl⟩ := Attempt.map_eq_ok.mp read
    trivial
  | append held =>
    obtain ⟨found, gathered, rfl⟩ := Attempt.map_eq_ok.mp read
    refine Record.read_keeps (fun held => Denoted (.append held)) ?_ start gathered
    intro held denoted field declared member within next misfit taken
    obtain rfl := List.mem_singleton.mp declared
    simp only at taken
    split at taken
    · cases taken
      trivial
    · obtain ⟨found, gathered, same⟩ := Attempt.bind_eq_ok.mp taken
      cases same
      exact allDenoted_of_sources (sound member within).2 gathered
    · cases taken
      exact denoted
  | join right type on =>
    obtain ⟨parts, gathered, same⟩ := Attempt.bind_eq_ok.mp read
    cases same
    refine Record.read_keeps (fun parts => parts.right.Denoted) ?_ start gathered
    intro parts denoted field declared member within next misfit taken
    simp only [joinFields, List.mem_cons, List.not_mem_nil, or_false] at declared
    rcases declared with rfl | rfl | rfl
    · obtain ⟨reference, reads, same⟩ := Attempt.bind_eq_ok.mp taken
      cases same
      exact (sound member within).1 reference reads
    · cases taken
      exact denoted
    · cases taken
      exact denoted
  | transform operation =>
    obtain ⟨found, reads, rfl⟩ := Attempt.map_eq_ok.mp read
    exact Operation.denoted_of_ofMembers start reads

theorem denoted_of_blank? {name : String} {blank : Step} (kind : blank? name = some blank) :
    blank.Denoted := by
  have member := List.mem_of_find?_eq_some kind
  rcases List.mem_append.mp member with own | transforms
  · simp only [List.mem_cons, List.not_mem_nil, or_false] at own
    rcases own with rfl | rfl | rfl <;> trivial
  · obtain ⟨operation, within, rfl⟩ := List.mem_map.mp transforms
    exact Operation.denoted_of_mem_blanks operation within

theorem denoted_of_ofMembers {members : List (String × Member)} {step : Step}
    (sound : ∀ member ∈ members, member.2.Sound) (read : ofMembers members = .ok step) :
    step.Denoted := by
  unfold ofMembers at read
  obtain ⟨name, _, read⟩ := Attempt.bind_eq_ok.mp read
  split at read
  next => exact absurd read Attempt.fail_ne_ok
  next blank kind =>
    rw [Attempt.inside_eq_ok, Attempt.inside_eq_ok, sortMembers_eq] at read
    refine denoted_of_ofBody ?_ (denoted_of_blank? kind) read
    exact fun member within => sound member (Fields.mem_ofList (List.mem_of_mem_filter within))

mutual

theorem denoted_of_ofJson : ∀ {json : Json} {step : Step}, ofJson json = .ok step → step.Denoted
  | .object members, _, read => by
    rw [ofJson] at read
    exact denoted_of_ofMembers (sound_membersOf members) read
  | .null, _, read | .bool _, _, read | .number _, _, read | .string _, _, read
  | .array _, _, read => by
    cases read

theorem sound_membersOf : ∀ (members : List (String × Json)),
    ∀ member ∈ membersOf members, member.2.Sound
  | [] => by simp [membersOf]
  | (key, json) :: rest => by
    rw [membersOf]
    exact List.forall_mem_cons.mpr
      ⟨⟨fun _ => denoted_of_referenceOf, denoted_of_sourcesOf json⟩, sound_membersOf rest⟩

theorem denoted_of_referenceOf : ∀ {json : Json} {reference : Reference},
    referenceOf json = .ok reference → reference.Denoted
  | .string name, _, read => by
    cases read
    trivial
  | .array items, _, read => by
    rw [referenceOf] at read
    obtain ⟨steps, reads, rfl⟩ := Attempt.map_eq_ok.mp read
    exact allDenoted_of_stepsOf reads
  | .null, _, read | .bool _, _, read | .number _, _, read | .object _, _, read => by
    cases read

theorem denoted_of_sourcesOf : ∀ (json : Json) (reference : Reference),
    (.ok reference : Attempt Reference) ∈ sourcesOf json → reference.Denoted
  | .array items, reference, within => by
    rw [sourcesOf] at within
    exact denoted_of_referencesOf items reference within
  | .null, _, within | .bool _, _, within | .number _, _, within | .string _, _, within
  | .object _, _, within => by
    simp [sourcesOf] at within

theorem denoted_of_referencesOf : ∀ (items : List Json) (reference : Reference),
    (.ok reference : Attempt Reference) ∈ referencesOf items → reference.Denoted
  | [], _, within => by simp [referencesOf] at within
  | item :: rest, reference, within => by
    rw [referencesOf] at within
    rcases List.mem_cons.mp within with first | later
    · exact denoted_of_referenceOf first.symm
    · exact denoted_of_referencesOf rest reference later

theorem allDenoted_of_stepsOf : ∀ {index : Nat} {items : List Json} {steps : List Step},
    stepsOf index items = .ok steps → AllDenoted steps
  | _, [], _, read => by
    cases read
    trivial
  | index, item :: rest, _, read => by
    rw [stepsOf] at read
    obtain ⟨first, reads, read⟩ := Attempt.bind_eq_ok.mp read
    obtain ⟨others, later, read⟩ := Attempt.bind_eq_ok.mp read
    cases read
    exact ⟨denoted_of_ofJson (Attempt.inside_eq_ok.mp reads), allDenoted_of_stepsOf later⟩

end

/-! ### Writing -/

theorem sources_map_ok (found : List Reference) :
    sources (found.map .ok) = .ok found := by
  induction found with
  | nil => rfl
  | cons first rest inductionHypothesis =>
    rw [List.map_cons, sources, inductionHypothesis]
    rfl

/-- A step is written as a document that reads as the tidied step. -/
def Writes (step : Step) (json : Json) : Prop :=
  step.toJson? = some json ∧ json.Plain ∧ ofJson json = .ok step.tidied

theorem writes_domain (name : String) : ∃ json, Writes (.domain name) json := by
  refine ⟨_, rfl, by simp, ?_⟩
  rw [ofJson]
  apply ofMembers_named rfl (by simp)
  simp [membersOf, Fields.ofList, Fields.set, ofBody, Record.read, Record.field?, domainFields,
    tidied]

theorem writes_append {sources : List Reference} {written : List Json}
    (writes : referencesJson? sources = some written) (plain : ∀ json ∈ written, json.Plain)
    (reads : referencesOf written = (Reference.allTidied sources).map .ok) :
    ∃ json, Writes (.append (some sources)) json := by
  refine ⟨.object [("name", .string "append"), ("pipelines", .array written)], ?_,
    by simpa using plain, ?_⟩
  · simp [toJson?, writes]
  rw [ofJson]
  apply ofMembers_named rfl (by simp)
  simp [membersOf, Fields.ofList, Fields.set, ofBody, Record.read, Record.field?, appendFields,
    sourcesOf, reads, sources_map_ok, tidied]

theorem writes_join {right : Reference} {json : Json} (type : String) (on : ColumnPairs)
    (writes : referenceJson? right = some json) (plain : json.Plain)
    (reads : referenceOf json = .ok right.tidied) :
    ∃ json, Writes (.join right type on) json := by
  refine ⟨.object [("name", .string "join"), ("right_pipeline", json), ("type", .string type),
    ("on", on.toJson)], ?_, by simp [plain], ?_⟩
  · simp [toJson?, writes]
  rw [ofJson]
  apply ofMembers_named rfl (by simp)
  simp [-String.lt_iff_ltb, membersOf, Fields.ofList, Fields.set, ofBody, Record.read,
    Record.field?, joinFields, reads, tidied]

theorem exists_blank (operation : Operation) :
    ∃ blank, blank? operation.name = some (.transform blank) := by
  cases operation <;> exact ⟨_, rfl⟩

theorem writes_transform {operation : Operation} (denoted : operation.Denoted) :
    ∃ json, Writes (.transform operation) json := by
  obtain ⟨members, writes⟩ := denoted.writes
  obtain ⟨blank, kind⟩ := exists_blank operation
  refine ⟨.object (("name", .string operation.name) :: members), ?_, ?_, ?_⟩
  · simp [toJson?, writes.written]
  · exact .object (List.forall_mem_cons.mpr ⟨.string _, writes.plain⟩)
  rw [ofJson]
  apply ofMembers_named kind writes.unnamed
  have documents : (Fields.ofList (membersOf members)).map
      (fun member => (member.1, member.2.json)) = Fields.ofList members := by
    rw [Fields.map_ofList, membersOf_eq, List.map_map]
    exact congrArg _ (List.map_id _)
  rw [ofBody, documents, writes.reads blank kind]
  rfl

mutual

theorem Denoted.writes : ∀ {step : Step}, step.Denoted → ∃ json, Writes step json
  | .domain name, _ => writes_domain name
  | .append none, _ => by
    refine ⟨_, rfl, by simp, ?_⟩
    rw [ofJson]
    apply ofMembers_named rfl (by simp)
    simp [membersOf, Fields.ofList, Fields.set, ofBody, Record.read, Record.field?, appendFields,
      tidied]
  | .append (some sources), denoted => by
    obtain ⟨written, writes, plain, reads⟩ := references_written denoted
    exact writes_append writes plain reads
  | .join right type on, denoted => by
    obtain ⟨json, writes, plain, reads⟩ := reference_written denoted
    exact writes_join type on writes plain reads
  | .transform operation, denoted => writes_transform denoted

theorem reference_written : ∀ {reference : Reference}, reference.Denoted →
    ∃ json, referenceJson? reference = some json ∧ json.Plain ∧
      referenceOf json = .ok reference.tidied
  | .named name, _ => ⟨.string name, rfl, .string name, rfl⟩
  | .inline steps, denoted => by
    obtain ⟨written, writes, plain, reads⟩ := steps_written denoted
    refine ⟨.array written, ?_, .array plain, ?_⟩
    · simp [referenceJson?, writes]
    · simp [referenceOf, reads, Reference.tidied]

theorem references_written : ∀ {sources : List Reference}, Reference.AllDenoted sources →
    ∃ written, referencesJson? sources = some written ∧ (∀ json ∈ written, json.Plain) ∧
      referencesOf written = (Reference.allTidied sources).map .ok
  | [], _ => ⟨[], rfl, by simp, rfl⟩
  | first :: rest, denoted => by
    obtain ⟨json, writes, plain, reads⟩ := reference_written denoted.1
    obtain ⟨written, writesAll, plains, readsAll⟩ := references_written denoted.2
    refine ⟨json :: written, ?_, List.forall_mem_cons.mpr ⟨plain, plains⟩, ?_⟩
    · simp [referencesJson?, writes, writesAll]
    · simp [referencesOf, reads, readsAll, Reference.allTidied]

theorem steps_written : ∀ {steps : List Step}, AllDenoted steps →
    ∃ written, stepsJson? steps = some written ∧ (∀ json ∈ written, json.Plain) ∧
      ∀ index, stepsOf index written = .ok (allTidied steps)
  | [], _ => ⟨[], rfl, by simp, fun _ => rfl⟩
  | first :: rest, denoted => by
    obtain ⟨json, writes, plain, reads⟩ := Denoted.writes denoted.1
    obtain ⟨written, writesAll, plains, readsAll⟩ := steps_written denoted.2
    refine ⟨json :: written, ?_, List.forall_mem_cons.mpr ⟨plain, plains⟩, ?_⟩
    · simp [stepsJson?, writes, writesAll]
    · intro index
      rw [stepsOf, reads, Attempt.inside_ok, Attempt.ok_bind, readsAll]
      rfl

end

end Step

namespace Pipeline

theorem allDenoted_of_parse {text : List Char} {pipeline : Pipeline}
    (parsed : parse text = .ok pipeline) : Step.AllDenoted pipeline := by
  obtain ⟨document, read, parsed⟩ := Attempt.bind_eq_ok.mp parsed
  split at parsed
  next json =>
    cases json with
    | null =>
      cases parsed
      trivial
    | array items => exact Step.allDenoted_of_stepsOf parsed
    | _ => cases parsed
  next => exact absurd parsed Attempt.fail_ne_ok

/-- Whatever is parsed can be written, and parsing what is written gives it back with the lists
absent that are left out because they are empty. -/
theorem parse_written {text : List Char} {pipeline : Pipeline}
    (parsed : parse text = .ok pipeline) :
    ∃ json, pipeline.toJson? = some json ∧
      parse (Json.compact .escaped json).toList = .ok pipeline.tidied := by
  obtain ⟨written, writes, plain, reads⟩ := Step.steps_written (allDenoted_of_parse parsed)
  refine ⟨.array written, ?_, ?_⟩
  · simp [toJson?, writes]
  · rw [parse, Document.read_compact (.array plain)]
    exact reads 0

/-- An empty list of groups, deep inside a pipeline written in place, comes back as absent. -/
theorem parse_written_nested :
    parse ("[\x7b\"name\":\"append\",\"pipelines\":[\"p\"," ++
        "[\x7b\"name\":\"top\",\"groups\":[],\"limit\":0.1\x7d]]\x7d]").toList =
      .ok [.append (some [.named "p", .inline [.transform (.top (some []) "" "" (.double 0.1))]])] ∧
    ∃ json,
      toJson? [.append (some [.named "p", .inline [.transform (.top (some []) "" "" (.double 0.1))]])]
        = some json ∧
      parse (Json.compact .escaped json).toList =
        .ok [.append (some [.named "p", .inline [.transform (.top none "" "" (.double 0.1))]])] := by
  have read : Document.read ("[\x7b\"name\":\"append\",\"pipelines\":[\"p\"," ++
      "[\x7b\"name\":\"top\",\"groups\":[],\"limit\":0.1\x7d]]\x7d]").toList =
      .ok (some (.array [.object [("name", .string "append"), ("pipelines", .array [.string "p",
        .array [.object [("name", .string "top"), ("groups", .array []),
          ("limit", .number "0.1")]]])]])) := by
    cbv
  have parsed : parse ("[\x7b\"name\":\"append\",\"pipelines\":[\"p\"," ++
      "[\x7b\"name\":\"top\",\"groups\":[],\"limit\":0.1\x7d]]\x7d]").toList =
      .ok [.append (some [.named "p",
        .inline [.transform (.top (some []) "" "" (.double 0.1))]])] := by
    rw [parse, read]
    rfl
  exact ⟨parsed, parse_written parsed⟩

end Pipeline

end StepQuery
