import StepQuery.Proofs.Codec.Pipeline
import StepQuery.Proofs.Codec.Surplus

/-!
Reading a step loses nothing but the items of pairs after the second.  All else that the document of a step
says is said by the document that is written for it, at the same place, whatever the kind of the step and
however deep the place; and nothing is said that the document did not say.

Steps nest in the references of other steps, so documents are seen as steps, as references and as lists of
references at once.
-/

namespace StepQuery

open Json (Key Retains Restates itemAt)
open Record (folded valueOf Content)

namespace Step

/-- A document as a member of a step. -/
def memberOf (json : Json) : Member := ⟨json, referenceOf json, sourcesOf json⟩

/-- What is written for whatever a document is read as retains it. -/
structure Preserved (json : Json) : Prop where
  step : ∀ step written, ofJson json = .ok step → step.toJson? = some written →
    Retains Surplus json written
  reference : ∀ reference written, referenceOf json = .ok reference →
    referenceJson? reference = some written → Retains InSteps json written
  sources : ∀ items references written, json = .array items →
    sources (referencesOf items) = .ok references → referencesJson? references = some written →
    Retains InSources json (.array written)

theorem not_inSteps_nil : ¬ InSteps [] := nofun

theorem preserved_null : Preserved .null := ⟨nofun, nofun, nofun⟩

/-! ### Fields -/

/-- What a field of a step holds: a plain content, or the pipelines that the step is about. -/
inductive Slot where
  | plain (content : Content)
  | reference (source : Reference)
  | sources (references : Option (List Reference))

namespace Slot

/-- The slot of a field that nothing was taken into. -/
def cleared : Slot → Slot
  | .plain content => .plain content.cleared
  | .reference _ => .reference (.named "")
  | .sources _ => .sources none

/-- What a member makes of a slot. -/
def Takes (member : Member) : Slot → Slot → Prop
  | .plain held, found => ∃ content, found = .plain content ∧ held.take member.json = (content, none)
  | .reference held, found => ∃ source, found = .reference source ∧
      (member.reference = .ok source ∨ member.json = .null ∧ source = held)
  | .sources _, found => member.json = .null ∧ found = .sources none ∨
      ∃ items references, member.json = .array items ∧ found = .sources (some references) ∧
        Step.sources member.sources = .ok references

def write? : Slot → Option Json
  | .plain content => content.write?
  | .reference source => referenceJson? source
  | .sources none => some .null
  | .sources (some references) => (referencesJson? references).map .array

/-- The spare places that a slot has. -/
def Allows (spare : List Key → Prop) : Slot → Prop
  | .plain content => content.Allows spare
  | .reference _ => ∀ path, spare path ↔ InSteps path
  | .sources _ => ∀ path, spare path ↔ InSources path

theorem takes_null (slot : Slot) : slot.cleared.Takes (memberOf .null) slot.cleared := by
  cases slot with
  | plain content => exact ⟨_, rfl, content.take_cleared_null⟩
  | reference => exact ⟨_, rfl, .inr ⟨rfl, rfl⟩⟩
  | sources => exact .inl ⟨rfl, rfl⟩

variable {spare : List Key → Prop} {json written : Json} {slot : Slot}

/-- What a slot takes in is retained by what is written for it. -/
theorem retained (distinct : json.Distinct) (preserved : Preserved json)
    (takes : slot.cleared.Takes (memberOf json) slot) (allows : slot.Allows spare)
    (write : slot.write? = some written) : Retains spare json written := by
  cases slot with
  | plain content =>
    obtain ⟨_, ⟨⟩, taken⟩ := takes
    exact Content.retained allows json written distinct taken write
  | reference source =>
    refine Retains.spare_congr allows ?_
    obtain ⟨_, ⟨⟩, read | ⟨null, rfl⟩⟩ := takes
    · exact preserved.reference source written read write
    · cases write
      rw [show json = .null from null]
      exact .of_alike_text Json.alike_null_text not_inSteps_nil
  | sources =>
    refine Retains.spare_congr allows ?_
    obtain ⟨null, ⟨⟩⟩ | ⟨items, references, rfl, ⟨⟩, read⟩ := takes
    · cases write
      rw [show json = .null from null]
      exact .null
    · obtain ⟨others, writes, rfl⟩ := Option.map_eq_some_iff.mp write
      exact preserved.sources items references others rfl read writes

end Slot

section Fields

variable {ρ : Type} {fields : ρ → List (String × (Member → Attempt (ρ × Option Cause)))}
  {names : List String} {view : ρ → String → Slot} {members others : List (String × Json)}
  {start result : ρ}

/-- The readings of the members of a step object. -/
abbrev readings (members : List (String × Json)) : List (String × Member) :=
  members.map fun member => (member.1, memberOf member.2)

/-- The slots of a record that is read strictly hold what the members of their names say. -/
theorem takes_of_read (apart : (names.map folded).Nodup)
    (stores : ∀ record, ∀ field ∈ fields record, Record.Stores (fun _ => names) view
      (fun _ held member found => held.Takes member found) record field)
    (clear : ∀ name ∈ names, view start name = (view result name).cleared)
    (unlike : (members.map fun member => folded member.1).Nodup)
    (read : Record.read fields (readings members) start none = .ok result) :
    (∀ member ∈ members, ∃ name ∈ names, folded member.1 = folded name) ∧
      ∀ name ∈ names, (view result name).cleared.Takes (memberOf (valueOf members name))
        (view result name) := by
  have gathered := (Record.read_eq_ok_iff.mp read).gathered apart stores
    (by rw [List.map_map]; exact unlike)
  refine ⟨fun member within => gathered.declared _ (List.mem_map_of_mem within), fun name known => ?_⟩
  have silent : (view start name).Takes (memberOf .null) (view start name) := by
    rw [clear name known]
    exact Slot.takes_null _
  rw [← clear name known]
  exact gathered.fits_valueOf memberOf unlike known silent

/-- What is written slot by slot restates the members that the slots were read from. -/
theorem restored_of_read (apart : (("name" :: names).map folded).Nodup)
    (stores : ∀ record, ∀ field ∈ fields record, Record.Stores (fun _ => names) view
      (fun _ held member found => held.Takes member found) record field)
    (clear : ∀ name ∈ names, view start name = (view result name).cleared)
    (allows : ∀ name ∈ names, (view result name).Allows fun rest => Surplus (.field (folded name) :: rest))
    (distinct : Json.Distinct (.object members)) (preserved : ∀ member ∈ members, Preserved member.2)
    (read : Record.read fields (readings members) start none = .ok result)
    (named : others.map (·.1) = names)
    (writes : ∀ other ∈ others, (view result other.1).write? = some other.2) : Restored members others := by
  obtain ⟨unnamed, apart⟩ := List.nodup_cons.mp apart
  obtain ⟨declared, takes⟩ := takes_of_read apart stores clear distinct.unlike read
  have known {other : String × Json} (within : other ∈ others) : other.1 ∈ names :=
    named ▸ List.mem_map_of_mem within
  refine ⟨Json.restates_of_written (named ▸ declared) ?_ fun other within => ?_, ?_⟩
  · rwa [← named, List.map_map] at apart
  · have nested : Preserved (valueOf members other.1) := Record.valueOf_spec preserved_null preserved _
    exact Slot.retained (distinct.valueOf _) nested (takes _ (known within)) (allows _ (known within))
      (writes other within)
  · exact fun other within same => unnamed (same ▸ List.mem_map_of_mem (known within))

end Fields

/-! ### Kinds of steps -/

section Bodies

variable {members : List (String × Json)} {step : Step}

/-- What is written for a step is its kind, followed by what its members say. -/
def Rewrites (members : List (String × Json)) (kind : String) (step : Step) : Prop :=
  ∀ written, step.toJson? = some written →
    ∃ others, written = .object (("name", .string kind) :: others) ∧ Restored members others

variable (distinct : Json.Distinct (.object members)) (preserved : ∀ member ∈ members, Preserved member.2)

include distinct preserved

theorem rewrites_domain (read : ofBody (readings members) (.domain "") = .ok step) :
    Rewrites members "domain" step := by
  obtain ⟨name, gathered, rfl⟩ := Attempt.map_eq_ok.mp read
  rintro _ ⟨⟩
  have stores (held : String) : ∀ field ∈ domainFields held,
      Record.Stores (fun _ => ["domain"]) (fun held _ => Slot.plain (.text held))
        (fun _ held member found => held.Takes member found) held field := by
    refine List.forall_mem_singleton.mpr ⟨List.mem_singleton_self _, fun member next stored => ?_⟩
    obtain ⟨rfl, missed⟩ := Prod.mk.inj (Except.ok.inj stored)
    refine ⟨rfl, ⟨_, rfl, Prod.ext rfl missed⟩, ?_⟩
    exact fun other known different => absurd (List.mem_singleton.mp known) different
  have plain : folded "domain" ∉ spareFields.map folded := by decide
  refine ⟨_, rfl, restored_of_read (by decide) stores ?_ ?_ distinct preserved gathered rfl ?_⟩
  · exact List.forall_mem_singleton.mpr rfl
  · exact List.forall_mem_singleton.mpr (not_surplus plain [])
  · exact List.forall_mem_singleton.mpr rfl

theorem rewrites_append (read : ofBody (readings members) (.append none) = .ok step) :
    Rewrites members "append" step := by
  obtain ⟨references, gathered, rfl⟩ := Attempt.map_eq_ok.mp read
  intro written writes
  have stores (held : Option (List Reference)) : ∀ field ∈ appendFields held,
      Record.Stores (fun _ => ["pipelines"]) (fun held _ => Slot.sources held)
        (fun _ held member found => held.Takes member found) held field := by
    refine List.forall_mem_singleton.mpr ⟨List.mem_singleton_self _, fun member next stored => ?_⟩
    refine ⟨rfl, ?_, fun other known different => absurd (List.mem_singleton.mp known) different⟩
    simp only at stored
    split at stored
    next null =>
      cases stored
      exact .inl ⟨null, rfl⟩
    next items array =>
      obtain ⟨found, sources, same⟩ := Attempt.bind_eq_ok.mp stored
      cases same
      exact .inr ⟨items, found, array, rfl, sources⟩
    next => cases stored
  have elsewhere : folded "pipelines" ∉ pairFields.map folded := by decide
  have allows (path : List Key) : Surplus (.field (folded "pipelines") :: path) ↔ InSources path := by
    have different : folded "pipelines" ≠ folded "right_pipeline" := by decide
    simp only [surplus_iff, elsewhere, different, false_and, false_or, or_false, true_and]
  obtain ⟨json, write, rfl⟩ : ∃ json, (Slot.sources references).write? = some json ∧
      written = .object [("name", .string "append"), ("pipelines", json)] := by
    cases references with
    | none => exact ⟨.null, rfl, (Option.some.inj writes).symm⟩
    | some sources =>
      obtain ⟨others, write, same⟩ := Option.bind_eq_some_iff.mp writes
      exact ⟨_, Option.map_eq_some_iff.mpr ⟨others, write, rfl⟩, (Option.some.inj same).symm⟩
  refine ⟨_, rfl, restored_of_read (by decide) stores ?_ ?_ distinct preserved gathered rfl ?_⟩
  · exact List.forall_mem_singleton.mpr rfl
  · exact List.forall_mem_singleton.mpr allows
  · exact List.forall_mem_singleton.mpr write

/-- The slots of a join by the names of their members. -/
def joinSlot (parts : JoinParts) (name : String) : Slot :=
  if name = "right_pipeline" then .reference parts.right
  else if name = "type" then .plain (.text parts.type)
  else .plain (.textPairs parts.on)

omit distinct preserved in
theorem stores_joinFields (parts : JoinParts) : ∀ field ∈ joinFields parts,
    Record.Stores (fun _ => ["right_pipeline", "type", "on"]) joinSlot
      (fun _ held member found => held.Takes member found) parts field := by
  intro field declared
  simp only [joinFields, List.mem_cons, List.not_mem_nil, or_false] at declared
  rcases declared with rfl | rfl | rfl
  · refine ⟨by simp, fun member next stored => ?_⟩
    obtain ⟨right, reads, same⟩ := Attempt.bind_eq_ok.mp stored
    cases same
    exact ⟨rfl, ⟨right, rfl, .inl reads⟩, by simp [joinSlot]⟩
  all_goals
    refine ⟨by simp, fun member next stored => ?_⟩
    obtain ⟨rfl, missed⟩ := Prod.mk.inj (Except.ok.inj stored)
    exact ⟨rfl, ⟨_, rfl, Prod.ext rfl missed⟩, by simp [joinSlot]⟩

theorem rewrites_join (read : ofBody (readings members) (.join (.named "") "" none) = .ok step) :
    Rewrites members "join" step := by
  obtain ⟨parts, gathered, same⟩ := Attempt.bind_eq_ok.mp read
  cases same
  intro written writes
  obtain ⟨right, write, same⟩ := Option.bind_eq_some_iff.mp writes
  cases same
  have allows (path : List Key) : Surplus (.field (folded "right_pipeline") :: path) ↔ InSteps path := by
    have elsewhere : folded "right_pipeline" ∉ pairFields.map folded := by decide
    have different : folded "right_pipeline" ≠ folded "pipelines" := by decide
    simp only [surplus_iff, elsewhere, different, false_and, false_or, true_and]
  have plain : folded "type" ∉ spareFields.map folded := by decide
  have pairs (path : List Key) : Surplus (.field (folded "on") :: path) ↔ Record.Beyond path :=
    surplus_pairs_iff (by decide)
  refine ⟨_, rfl, restored_of_read (by decide) stores_joinFields ?_ ?_ distinct preserved gathered rfl ?_⟩
  · exact List.forall_mem_cons.mpr
      ⟨rfl, List.forall_mem_cons.mpr ⟨rfl, List.forall_mem_singleton.mpr rfl⟩⟩
  · exact List.forall_mem_cons.mpr ⟨allows,
      List.forall_mem_cons.mpr ⟨not_surplus plain [], List.forall_mem_singleton.mpr pairs⟩⟩
  · exact List.forall_mem_cons.mpr
      ⟨write, List.forall_mem_cons.mpr ⟨rfl, List.forall_mem_singleton.mpr rfl⟩⟩

omit preserved in
theorem rewrites_transform {blank : Operation} (start : blank ∈ Operation.blanks)
    (read : ofBody (readings members) (.transform blank) = .ok step) :
    Rewrites members blank.name step := by
  obtain ⟨operation, reads, rfl⟩ := Attempt.map_eq_ok.mp read
  have documents : (readings members).map (fun member => (member.1, member.2.json)) = members := by
    rw [List.map_map]
    exact List.map_id members
  rw [documents] at reads
  intro written writes
  obtain ⟨others, write, same⟩ := Option.bind_eq_some_iff.mp writes
  cases same
  exact ⟨others, by rw [Operation.name_of_ofMembers reads], restored_operation distinct start reads write⟩

theorem rewrites_of_ofBody {kind : String} {blank : Step} (found : blank? kind = some blank)
    (read : ofBody (readings members) blank = .ok step) : Rewrites members kind step := by
  have named : blank.name = kind := by simpa using List.find?_some found
  rw [← named]
  rcases List.mem_append.mp (List.mem_of_find?_eq_some found) with own | transforms
  · simp only [List.mem_cons, List.not_mem_nil, or_false] at own
    rcases own with rfl | rfl | rfl
    · exact rewrites_domain distinct preserved read
    · exact rewrites_append distinct preserved read
    · exact rewrites_join distinct preserved read
  · obtain ⟨operation, within, rfl⟩ := List.mem_map.mp transforms
    exact rewrites_transform distinct within read

end Bodies

/-! ### Steps -/

section Object

variable {members documents others : List (String × Json)} {kind : String}

/-- With the name of the kind put first, all members are restated. -/
theorem restates_named (unlike : (members.map fun member => folded member.1).Nodup)
    (within : ("name", .string kind) ∈ members)
    (rest : ∀ member, member ∈ documents ↔ member ∈ members ∧ member.1 ≠ "name")
    (unlike' : (documents.map fun member => folded member.1).Nodup) (restored : Restored documents others) :
    Restates Surplus members (("name", .string kind) :: others) := by
  obtain ⟨⟨apart, each⟩, unnamed⟩ := restored
  refine ⟨List.nodup_cons.mpr ⟨?_, apart⟩, fun name => ?_⟩
  · rintro present
    obtain ⟨other, known, same⟩ := List.mem_map.mp present
    exact unnamed other known same
  · rw [Record.valueOf_cons]
    split
    next same =>
      have plain : folded "name" ∉ spareFields.map folded := by decide
      rw [Record.valueOf_eq_of_mem unlike within same]
      exact .of_alike_text (.refl _) (not_surplus (same ▸ plain) [])
    next different =>
      have elsewhere : valueOf members name = valueOf documents name := by
        obtain ⟨member, known, same, value⟩ | ⟨absent, missing⟩ := Record.valueOf_cases unlike' name
        · rw [value, Record.valueOf_eq_of_mem unlike ((rest member).mp known).1 same]
        · rw [missing, Record.valueOf_eq_null fun member known same => ?_]
          have other : member.1 ≠ "name" := fun named => different (named ▸ same)
          exact absent member ((rest member).mpr ⟨known, other⟩) same
      rw [elsewhere]
      exact each name

theorem mem_of_nameOf {name : String} (called : nameOf (readings members) = .ok name) :
    ("name", .string name) ∈ members ∨ name = "" := by
  unfold nameOf at called
  split at called
  next => exact absurd called Attempt.fail_ne_ok
  next key member located =>
    have keyed : key = "name" := by simpa using List.find?_some located
    obtain ⟨⟨_, json⟩, within, same⟩ := List.mem_map.mp (List.mem_of_find?_eq_some located)
    cases same
    split at called
    next =>
      cases called
      exact .inr rfl
    next string =>
      cases called
      rw [← keyed]
      exact .inl ((show json = .string name from string) ▸ within)
    next => exact absurd called Attempt.fail_ne_ok

theorem retains_object (distinct : Json.Distinct (.object members))
    (preserved : ∀ member ∈ members, Preserved member.2) {step : Step} {written : Json}
    (read : ofJson (.object members) = .ok step) (writes : step.toJson? = some written) :
    Retains Surplus (.object members) written := by
  have different : (members.map (·.1)).Nodup := by
    refine .of_map folded ?_
    rw [List.map_map]
    exact distinct.unlike
  have same : (Fields.ofList members).Perm members := Fields.perm_ofList different
  have sorted : sortMembers (membersOf members) = readings (Fields.ofList members) := by
    rw [sortMembers_eq, membersOf_eq, readings, Fields.map_ofList]
    rfl
  rw [ofJson, ofMembers, sorted] at read
  obtain ⟨kind, called, read⟩ := Attempt.bind_eq_ok.mp read
  split at read
  next => exact absurd read Attempt.fail_ne_ok
  next blank found =>
    rw [Attempt.inside_eq_ok, Attempt.inside_eq_ok, readings, List.filter_map] at read
    obtain ⟨documents, is⟩ : ∃ documents, documents =
        (Fields.ofList members).filter fun member => member.1 != "name" := ⟨_, rfl⟩
    have rest (member : String × Json) : member ∈ documents ↔ member ∈ members ∧ member.1 ≠ "name" := by
      rw [is, List.mem_filter, same.mem_iff, bne_iff_ne]
    have unlike : (documents.map fun member => folded member.1).Nodup := by
      have all := (same.map fun member => folded member.1).nodup_iff.mpr distinct.unlike
      exact all.sublist (is ▸ List.filter_sublist.map _)
    have within : ("name", .string kind) ∈ members := by
      obtain present | rfl := mem_of_nameOf called
      · exact same.mem_iff.mp present
      · cases found
    have rewrites : Rewrites documents kind step := by
      refine rewrites_of_ofBody (.object unlike fun member known => ?_) (fun member known => ?_) found ?_
      · exact distinct.member member ((rest member).mp known).1
      · exact preserved member ((rest member).mp known).1
      · exact is ▸ read
    obtain ⟨others, rfl, restored⟩ := rewrites written writes
    exact (restates_named distinct.unlike within rest unlike restored).retains distinct.unlike not_surplus_nil

end Object

/-! ### Nesting -/

theorem forall₂_of_stepsOf {index : ℕ} {items : List Json} {steps : List Step}
    (read : stepsOf index items = .ok steps) :
    List.Forall₂ (fun json step => ofJson json = .ok step) items steps := by
  induction items generalizing index steps with
  | nil =>
    cases read
    exact .nil
  | cons item rest inductionHypothesis =>
    rw [stepsOf] at read
    obtain ⟨first, reads, read⟩ := Attempt.bind_eq_ok.mp read
    obtain ⟨others, later, same⟩ := Attempt.bind_eq_ok.mp read
    cases same
    exact .cons (Attempt.inside_eq_ok.mp reads) (inductionHypothesis later)

theorem forall₂_of_sources {items : List Json} {references : List Reference}
    (read : sources (referencesOf items) = .ok references) :
    List.Forall₂ (fun json reference => referenceOf json = .ok reference) items references := by
  induction items generalizing references with
  | nil =>
    cases read
    exact .nil
  | cons item rest inductionHypothesis =>
    rw [referencesOf, sources] at read
    obtain ⟨first, reads, read⟩ := Attempt.bind_eq_ok.mp read
    obtain ⟨others, later, same⟩ := Attempt.bind_eq_ok.mp read
    cases same
    exact .cons reads (inductionHypothesis later)

theorem inSteps_item_iff {index : ℕ} {path : List Key} : InSteps (.item index :: path) ↔ Surplus path := by
  constructor
  · rintro ⟨_, _, ⟨⟩, surplus⟩
    exact surplus
  · exact fun surplus => ⟨index, path, rfl, surplus⟩

theorem inSources_item_iff {index : ℕ} {path : List Key} :
    InSources (.item index :: path) ↔ InSteps path := by
  constructor
  · rintro ⟨_, _, ⟨⟩, within⟩
    exact within
  · exact fun within => ⟨index, path, rfl, within⟩

theorem preserved_of_distinct {json : Json} (distinct : json.Distinct) : Preserved json := by
  induction distinct with
  | null | bool | number => exact ⟨nofun, nofun, nofun⟩
  | string name =>
    refine ⟨nofun, ?_, nofun⟩
    rintro _ _ ⟨⟩ ⟨⟩
    exact .of_alike_text (.refl _) not_inSteps_nil
  | array each inductionHypothesis =>
    refine ⟨nofun, ?_, ?_⟩
    · intro reference written read writes
      obtain ⟨steps, reads, rfl⟩ := Attempt.map_eq_ok.mp read
      obtain ⟨others, write, rfl⟩ := Option.map_eq_some_iff.mp writes
      have writes := forall₂_of_itemwise write rfl fun _ _ => rfl
      refine .items (forall₂_of_stepsOf reads) writes ?_
      intro index json within step other read writes
      exact .spare_congr (fun _ => inSteps_item_iff)
        ((inductionHypothesis json within).step step other read writes)
    · rintro _ references written ⟨⟩ read writes
      have writes := forall₂_of_itemwise writes rfl fun _ _ => rfl
      refine .items (forall₂_of_sources read) writes ?_
      intro index json within reference other read writes
      exact .spare_congr (fun _ => inSources_item_iff)
        ((inductionHypothesis json within).reference reference other read writes)
  | object unlike each inductionHypothesis =>
    exact ⟨fun _ _ => retains_object (.object unlike each) inductionHypothesis, nofun, nofun⟩

end Step

end StepQuery
