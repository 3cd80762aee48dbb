import StepQuery.Proofs.Codec.Fidelity
import StepQuery.Proofs.Codec.Grammar

/-!
Conditions and branches are retained by what is written for them, without exception.  A condition that
mirrors a document has the same comparisons at the same places; a branch is read from the members of an
object, and the alternative that continues the chain from the object in it.
-/

namespace StepQuery

open Json (Key Retains Restates)
open Record (folded valueOf)

/-- A document is retained with no place being spare. -/
abbrev Json.Kept (json written : Json) : Prop := Retains (fun _ => False) json written

namespace Json

theorem kept_single {key : String} {json written : Json} (kept : Kept json written) :
    Kept (.object [(key, json)]) (.object [(key, written)]) := by
  have restates : Restates (fun _ => False) [(key, json)] [(key, written)] := by
    refine restates_of_written (by simp) (List.nodup_singleton _) (List.forall_mem_singleton.mpr ?_)
    rw [Record.valueOf_cons, if_pos rfl]
    exact kept
  exact restates.retains (List.nodup_singleton _) id

end Json

namespace Condition

theorem toJson?_combine {connective : Connective} {children : List Condition} {written : Json}
    (writes : (connective.combine children).toJson? = some written) :
    ∃ items, toItems? children = some items ∧ written = .object [(connective.key, .array items)] := by
  cases connective <;>
  · obtain ⟨items, write, rfl⟩ := Option.map_eq_some_iff.mp writes
    exact ⟨items, write, rfl⟩

theorem Compares.reads {members : List (String × Json)} {found : Comparison}
    (compares : Compares members found) : Record.Reads members found.parameters := by
  refine ⟨fun member within => ?_, ?_⟩
  · obtain ⟨name, known, same⟩ := compares.declared member within
    obtain ⟨parameter, present, rfl⟩ := List.mem_map.mp
      (show name ∈ found.parameters.map (·.name) from known)
    exact ⟨parameter, present, Record.sameName_iff.mp same⟩
  · refine List.forall_mem_cons.mpr ⟨?_, List.forall_mem_cons.mpr ⟨?_, List.forall_mem_singleton.mpr ?_⟩⟩
    · exact (Record.Content.stored_eq_iff fun _ _ => Record.Content.text.inj).mpr
        (Record.denotesText_iff.mp compares.column)
    · exact (Record.Content.stored_eq_iff fun _ _ => Record.Content.text.inj).mpr
        (Record.denotesText_iff.mp compares.operator)
    · exact (Record.Content.stored_eq_iff fun _ _ => Record.Content.value.inj).mpr
        (Record.value_eq_iff.mpr compares.value)

theorem kept_comparison {members : List (String × Json)} (distinct : Json.Distinct (.object members))
    {found : Comparison} (compares : Compares members found) {written : Json}
    (writes : comparisonJson found = some written) : Json.Kept (.object members) written := by
  obtain ⟨json, write, same⟩ := Option.bind_eq_some_iff.mp writes
  cases same
  have all : Record.writeAll? found.parameters = some [("column", .string found.column),
      ("operator", .string found.operator), ("value", json)] := by
    simp [Comparison.parameters, Record.writeAll?, Record.Parameter.write?, Record.Content.write?, write]
  have apart : (comparisonNames.map folded).Nodup := by decide
  have each : ∀ parameter ∈ found.parameters, parameter.content.Retained fun _ => False := by
    refine List.forall_mem_cons.mpr ⟨?_, List.forall_mem_cons.mpr ⟨?_, List.forall_mem_singleton.mpr ?_⟩⟩
    · exact Record.retained_text id
    · exact Record.retained_text id
    · exact Record.Content.retained fun _ => id
  have restates : Restates (fun _ => False) members _ :=
    Record.restates_parameters distinct compares.reads apart all each
  exact restates.retains distinct.unlike id

/-- A condition that mirrors a document is written as one that retains it. -/
theorem kept_of_mirrors {json : Json} (distinct : json.Distinct) : ∀ {condition written},
    Mirrors json condition → condition.toJson? = some written → Json.Kept json written := by
  induction json using Json.induction_items with
  | plain json noObject =>
    rintro _ written (_ | _ | _ | _) writes
    · cases writes
      exact .null
    all_goals exact absurd rfl (noObject _)
  | object members inductionHypothesis =>
    intro condition written mirrors writes
    cases mirrors with
    | empty connective =>
      obtain ⟨items, write, rfl⟩ := toJson?_combine writes
      cases write
      exact Json.kept_single (Json.alike_null_array_nil.retains nofun)
    | combination connective _ each =>
      obtain ⟨items, write, rfl⟩ := toJson?_combine writes
      have writes := forall₂_of_itemwise write rfl fun _ _ => rfl
      refine Json.kept_single (Retains.items each writes ?_)
      intro index json within child other mirrors writes
      have nested := (distinct.member _ List.mem_cons_self).item json within
      exact inductionHypothesis _ List.mem_cons_self _ rfl json within nested mirrors writes
    | comparison compares => exact kept_comparison distinct compares writes

end Condition

namespace Branch

theorem membersOf_eq (members : List (String × Json)) :
    membersOf members = members.map fun member => (member.1, ⟨member.2, continuation? member.2⟩) := by
  induction members with
  | nil => rfl
  | cons member rest inductionHypothesis =>
    rw [membersOf_cons, inductionHypothesis, List.map_cons]

/-! ### Parts -/

/-- The parts of a branch by the names of their members. -/
def part (parts : Parts) (name : String) : Json :=
  if name = "new_column" then .string parts.newColumn
  else if name = "if" then parts.test
  else if name = "then" then parts.consequent
  else parts.alternative

/-- What a document makes of a part: of the name of the column its text, of the others itself. -/
def Fits (name : String) (held json found : Json) : Prop :=
  if name = "new_column" then ∃ text, found = .string text ∧ (json = found ∨ json = .null ∧ found = held)
  else found = json

theorem stores_partFields (parts : Parts) : ∀ field ∈ partFields parts,
    Record.Stores (fun _ => ["if", "then", "else"]) part (fun name held member => Fits name held member.json)
      parts field := by
  intro field declared
  simp only [partFields, List.mem_cons, List.not_mem_nil, or_false] at declared
  rcases declared with rfl | rfl | rfl
  all_goals
    refine ⟨by simp, fun member next stored => ?_⟩
    cases stored
    simp [Fits, part]

theorem stores_stepFields (parts : Parts) : ∀ field ∈ stepFields parts,
    Record.Stores (fun _ => ["new_column", "if", "then", "else"]) part
      (fun name held member => Fits name held member.json) parts field := by
  intro field declared
  simp only [stepFields, partFields, List.mem_cons, List.not_mem_nil, or_false] at declared
  rcases declared with rfl | rfl | rfl | rfl
  · refine ⟨by simp, fun member next stored => ?_⟩
    obtain ⟨rfl, missed⟩ := Prod.mk.inj (Except.ok.inj stored)
    have taken := Record.text_eq_iff.mp (Prod.ext rfl missed)
    have fits : Fits "new_column" (.string parts.newColumn) member.json
        (.string (Record.text member.json parts.newColumn).1) :=
      ⟨_, rfl, taken.imp id (And.imp_right (congrArg _))⟩
    exact ⟨rfl, fits, by simp [part]⟩
  all_goals
    refine ⟨by simp, fun member next stored => ?_⟩
    cases stored
    simp [Fits, part]

/-- What the parts of a branch are read as. -/
structure Gathers (names : List String) (members : List (String × Json)) (parts : Parts) : Prop where
  declared : ∀ member ∈ members, ∃ name ∈ names, folded member.1 = folded name
  fits : ∀ name ∈ names, Fits name (if name = "new_column" then .string "" else .null)
    (valueOf members name) (part parts name)
  next : parts.next = continuation? parts.alternative

theorem gathers_of_readParts {fields : Parts → List (String × (Member → Attempt (Parts × _)))}
    {names : List String} (apart : (names.map folded).Nodup)
    (stores : ∀ parts, ∀ field ∈ fields parts, Record.Stores (fun _ => names) part
      (fun name held member => Fits name held member.json) parts field)
    (keeps : ∀ {parts next : Parts}, parts.Sound → ∀ {misfit : Option Cause} {member : Member},
      member.Sound → ∀ {field}, field ∈ fields parts → field.2 member = .ok (next, misfit) → next.Sound)
    {members : List (String × Json)} (unlike : (members.map fun member => folded member.1).Nodup)
    {parts : Parts} (read : readParts fields (membersOf members) = .ok parts) :
    Gathers names members parts := by
  have sound := sound_of_readParts keeps (sound_membersOf members) read
  have takes := Record.read_eq_ok_iff.mp (Attempt.inside_eq_ok.mp read)
  rw [membersOf_eq] at takes
  have gathered := takes.gathered apart stores (by rw [List.map_map]; exact unlike)
  refine ⟨?_, fun name known => ?_, sound.1⟩
  · exact fun member within => gathered.declared _ (List.mem_map_of_mem within)
  · have start : part ⟨"", .null, .null, .null, none⟩ name =
        if name = "new_column" then .string "" else .null := by
      unfold part
      repeat' split <;> try rfl
    rw [← start]
    refine gathered.fits_valueOf (fun json => (⟨json, continuation? json⟩ : Member)) unlike known ?_
    rw [start]
    unfold Fits
    split
    · exact ⟨"", rfl, .inr ⟨rfl, rfl⟩⟩
    · rfl

theorem Gathers.kept {names : List String} {members : List (String × Json)} {parts : Parts}
    (gathers : Gathers names members parts) : ∀ name ∈ names,
      Json.Kept (valueOf members name) (part parts name) := by
  intro name known
  have fits := gathers.fits name known
  unfold Fits at fits
  split at fits
  · obtain ⟨text, found, same | ⟨null, same⟩⟩ := fits
    · rw [same]
      exact (Json.Alike.refl _).retains nofun
    · rw [null, same]
      exact Json.alike_null_text.retains nofun
  · rw [fits]
    exact (Json.Alike.refl _).retains nofun

/-- All parts but the name of the column are the members of their names. -/
theorem Gathers.part_eq {names : List String} {members : List (String × Json)} {parts : Parts}
    (gathers : Gathers names members parts) {name : String} (known : name ∈ names)
    (plain : name ≠ "new_column") : part parts name = valueOf members name := by
  have fits := gathers.fits name known
  rwa [Fits, if_neg plain] at fits

theorem continuation?_eq_some {json : Json} {attempt : Attempt Branch}
    (continues : continuation? json = some attempt) :
    ∃ members, json = .object members ∧ attempt = ofJson json := by
  cases json with
  | object members =>
    rw [continuation?] at continues
    split at continues
    · exact ⟨members, rfl, (Option.some.inj continues).symm⟩
    · cases continues
  | _ => cases continues

/-- An object that is read as a branch is retained by what is written for it. -/
def Continues (json : Json) : Prop := ∀ members branch others, json = .object members →
  ofJson json = .ok branch → branch.toMembers? = some others → Json.Kept json (.object others)

/-- The members of a branch retain the parts that it was put together from. -/
theorem kept_of_ofParts {parts : Parts} {branch : Branch} {others : List (String × Json)}
    (distinct : parts.test.Distinct ∧ parts.consequent.Distinct ∧ parts.alternative.Distinct)
    (next : parts.next = continuation? parts.alternative)
    (continued : Continues parts.alternative)
    (read : ofParts parts = .ok branch) (writes : branch.toMembers? = some others) :
    ∃ test consequent alternative,
      others = [("if", test), ("then", consequent), ("else", alternative)] ∧
        Json.Kept parts.test test ∧ Json.Kept parts.consequent consequent ∧
          Json.Kept parts.alternative alternative := by
  obtain ⟨distinctTest, distinctFirst, distinctSecond⟩ := distinct
  have keptTest {test : Condition} {json : Json}
      (tested : Attempt.inside .branchIf (Condition.ofJson parts.test) = .ok test)
      (write : test.toJson? = some json) : Json.Kept parts.test json :=
    Condition.kept_of_mirrors distinctTest
      ((Condition.ofJson_eq_ok_iff distinctTest test).mp (Attempt.inside_eq_ok.mp tested)) write
  have keptValue {place : Place} {document json : Json} {value : Value} (distinct : document.Distinct)
      (read : plainValue place document = .ok value) (write : value.toJson? = some json) :
      Json.Kept document json :=
    (Value.alike_of_ofJson? distinct (ofJson?_of_plainValue read) write).retains nofun
  obtain ⟨test, tested, read⟩ := Attempt.bind_eq_ok.mp read
  obtain ⟨consequent, first, read⟩ := Attempt.bind_eq_ok.mp read
  split at read
  next attempt found =>
    obtain ⟨following, continues, same⟩ := Attempt.bind_eq_ok.mp read
    cases same
    obtain ⟨members, object, rfl⟩ := continuation?_eq_some (next.symm.trans found)
    obtain ⟨testJson, writeTest, writes⟩ := Option.bind_eq_some_iff.mp writes
    obtain ⟨firstJson, writeFirst, writes⟩ := Option.bind_eq_some_iff.mp writes
    obtain ⟨inner, write, same⟩ := Option.bind_eq_some_iff.mp writes
    cases same
    exact ⟨_, _, _, rfl, keptTest tested writeTest, keptValue distinctFirst first writeFirst,
      continued members following inner object (Attempt.inside_eq_ok.mp continues) write⟩
  next =>
    obtain ⟨alternative, second, same⟩ := Attempt.bind_eq_ok.mp read
    cases same
    obtain ⟨testJson, writeTest, writes⟩ := Option.bind_eq_some_iff.mp writes
    obtain ⟨firstJson, writeFirst, writes⟩ := Option.bind_eq_some_iff.mp writes
    obtain ⟨secondJson, writeSecond, same⟩ := Option.bind_eq_some_iff.mp writes
    cases same
    exact ⟨_, _, _, rfl, keptTest tested writeTest, keptValue distinctFirst first writeFirst,
      keptValue distinctSecond second writeSecond⟩

/-- What is written for a branch retains the members that its parts were gathered from. -/
theorem Gathers.kept_of_ofParts {names : List String} {members others : List (String × Json)}
    {parts : Parts} {branch : Branch} (gathers : Gathers names members parts)
    (known : ∀ name ∈ ["if", "then", "else"], name ∈ names) (distinct : Json.Distinct (.object members))
    (continued : ∀ member ∈ members, Continues member.2) (read : ofParts parts = .ok branch)
    (writes : branch.toMembers? = some others) :
    ∃ test consequent alternative,
      others = [("if", test), ("then", consequent), ("else", alternative)] ∧
        Json.Kept (valueOf members "if") test ∧ Json.Kept (valueOf members "then") consequent ∧
          Json.Kept (valueOf members "else") alternative := by
  have test : parts.test = _ := gathers.part_eq (known "if" (by simp)) (by decide)
  have consequent : parts.consequent = _ := gathers.part_eq (known "then" (by simp)) (by decide)
  have alternative : parts.alternative = _ := gathers.part_eq (known "else" (by simp)) (by decide)
  have continues : Continues (valueOf members "else") := Record.valueOf_spec nofun continued "else"
  rw [← test, ← consequent, ← alternative]
  refine Branch.kept_of_ofParts ⟨?_, ?_, ?_⟩ gathers.next (alternative ▸ continues) read writes
  · exact test ▸ distinct.valueOf "if"
  · exact consequent ▸ distinct.valueOf "then"
  · exact alternative ▸ distinct.valueOf "else"

theorem continues_of_distinct {json : Json} (distinct : json.Distinct) : Continues json := by
  induction distinct with
  | @object members unlike each inductionHypothesis =>
    intro _ branch others _ read writes
    rw [ofJson] at read
    obtain ⟨parts, gathered, read⟩ := Attempt.bind_eq_ok.mp read
    have gathers := gathers_of_readParts (by decide) stores_partFields partFields_keeps unlike gathered
    obtain ⟨test, consequent, alternative, rfl, keptTest, keptFirst, keptSecond⟩ :=
      gathers.kept_of_ofParts (fun _ => id) (.object unlike each) inductionHypothesis read writes
    have restates : Json.Restates (fun _ => False) members
        [("if", test), ("then", consequent), ("else", alternative)] := by
      have apart : (["if", "then", "else"].map folded).Nodup := by decide
      refine Json.restates_of_written gathers.declared apart ?_
      exact List.forall_mem_cons.mpr ⟨keptTest, List.forall_mem_cons.mpr
        ⟨keptFirst, List.forall_mem_singleton.mpr keptSecond⟩⟩
    exact restates.retains unlike id
  | _ => exact nofun

end Branch

end StepQuery
