import StepQuery.Proofs.Codec.Conditional
import StepQuery.Proofs.Codec.Kinds

/-!
The places in the document of a step that are read by nobody: those after the second in its pairs.  What is
written for an operation says all else that its document said, at the same places, and nothing more.
-/

namespace StepQuery

open Json (Key Retains Restates)
open Record (folded valueOf Beyond Parameter Content)

namespace Step

/-! ### Spare places -/

/-- The fields that hold lists of pairs. -/
def pairFields : List String := ["on", "to_rename", "to_cumsum", "to_replace"]

/-- The places that are spare in the document of a step: those after the second in its pairs, and in the
pairs of the steps that are written in it in place of references. -/
inductive Surplus : List Key → Prop
  | pair {name : String} {path : List Key} (known : name ∈ pairFields) (beyond : Beyond path) :
      Surplus (.field (folded name) :: path)
  | appended {path : List Key} (source step : ℕ) (inner : Surplus path) :
      Surplus (.field (folded "pipelines") :: .item source :: .item step :: path)
  | joined {path : List Key} (step : ℕ) (inner : Surplus path) :
      Surplus (.field (folded "right_pipeline") :: .item step :: path)

/-- The spare places in a list of steps. -/
def InSteps (path : List Key) : Prop := ∃ step rest, path = .item step :: rest ∧ Surplus rest

/-- The spare places in a list of references. -/
def InSources (path : List Key) : Prop := ∃ source rest, path = .item source :: rest ∧ InSteps rest

theorem not_surplus_nil : ¬ Surplus [] := by rintro ⟨⟩

theorem surplus_iff {name : List Char} {path : List Key} : Surplus (.field name :: path) ↔
    name ∈ pairFields.map folded ∧ Beyond path ∨
      name = folded "pipelines" ∧ InSources path ∨
        name = folded "right_pipeline" ∧ InSteps path := by
  constructor
  · rintro (⟨known, beyond⟩ | ⟨source, step, inner⟩ | ⟨step, inner⟩)
    · exact .inl ⟨List.mem_map_of_mem known, beyond⟩
    · exact .inr (.inl ⟨rfl, source, _, rfl, step, _, rfl, inner⟩)
    · exact .inr (.inr ⟨rfl, step, _, rfl, inner⟩)
  · rintro (⟨known, beyond⟩ | ⟨rfl, source, _, rfl, step, _, rfl, inner⟩ | ⟨rfl, step, _, rfl, inner⟩)
    · obtain ⟨field, within, rfl⟩ := List.mem_map.mp known
      exact .pair within beyond
    · exact .appended source step inner
    · exact .joined step inner

/-- The fields with spare places. -/
def spareFields : List String := pairFields ++ ["pipelines", "right_pipeline"]

theorem not_surplus {name : String} (other : folded name ∉ spareFields.map folded) (path : List Key) :
    ¬ Surplus (.field (folded name) :: path) := by
  rw [spareFields, List.map_append, List.mem_append, not_or] at other
  obtain ⟨plain, others⟩ := other
  rw [surplus_iff]
  rintro (⟨known, _⟩ | ⟨same, _⟩ | ⟨same, _⟩)
  · exact plain known
  · exact others (same ▸ by decide)
  · exact others (same ▸ by decide)

/-- A parameter stands in a field that may have the spare places of its content. -/
def placed (parameter : Parameter) : Bool :=
  match parameter.content with
  | .textPairs _ | .valuePairs _ => pairFields.contains parameter.name
  | .texts _ => !(["pipelines", "right_pipeline"].map folded).contains (folded parameter.name)
  | _ => !(spareFields.map folded).contains (folded parameter.name)

theorem placed_parameters (operation : Operation) : ∀ parameter ∈ operation.parameters, placed parameter := by
  refine List.all_eq_true.mp ?_
  cases operation with
  | filter | ifThenElse => rfl
  | _ =>
    simp only [Operation.parameters, List.all_cons, List.all_nil, placed]
    decide

theorem surplus_pairs_iff {name : String} (known : name ∈ pairFields) {path : List Key} :
    Surplus (.field (folded name) :: path) ↔ Beyond path := by
  have elsewhere : ∀ name ∈ pairFields,
      folded name ≠ folded "pipelines" ∧ folded name ≠ folded "right_pipeline" := by decide
  obtain ⟨notPipelines, notRight⟩ := elsewhere name known
  rw [surplus_iff]
  simp only [notPipelines, notRight, false_and, or_false, List.mem_map_of_mem known, true_and]

theorem allows_of_placed {parameter : Parameter} (known : placed parameter) :
    parameter.content.Allows fun rest => Surplus (.field (folded parameter.name) :: rest) := by
  obtain ⟨name, content, optional⟩ := parameter
  unfold placed at known
  cases content with
  | textPairs | valuePairs =>
    exact fun path => surplus_pairs_iff (List.contains_iff_mem.mp known)
  | texts =>
    intro index surplus
    rw [Bool.not_eq_true', List.contains_eq_mem, decide_eq_false_iff_not] at known
    obtain ⟨_, _, _, _, same, _⟩ | ⟨same, _⟩ | ⟨same, _⟩ := surplus_iff.mp surplus
    · cases same
    · exact known (same ▸ by decide)
    · exact known (same ▸ by decide)
  | text | flag | whole | value | sortKeys | aggregations =>
    rw [Bool.not_eq_true', List.contains_eq_mem, decide_eq_false_iff_not] at known
    first
    | exact not_surplus known []
    | exact not_surplus known

/-! ### Operations -/

/-- The members that are written for a step restate those that it was read from, its name aside. -/
structure Restored (members others : List (String × Json)) : Prop where
  restates : Restates Surplus members others
  unnamed : ∀ other ∈ others, folded other.1 ≠ folded "name"

section Operations

variable {members others : List (String × Json)} {blank operation : Operation}

theorem restored_plain (distinct : Json.Distinct (.object members)) (start : blank ∈ Operation.blanks)
    (plain : ¬ blank.IsSpecial) (read : Record.read Operation.fields members blank none = .ok operation)
    (writes : operation.toMembers? = some others) : Restored members others := by
  obtain ⟨reads, named⟩ := Operation.reads_of_read read start distinct.unlike
  have same : ¬ operation.IsSpecial := by
    rwa [Operation.isSpecial_iff, named, ← Operation.isSpecial_iff]
  rw [Operation.toMembers?_eq_writeAll? same] at writes
  obtain ⟨unnamed, apart⟩ := List.nodup_cons.mp operation.apart
  rw [Record.namesOf, List.map_map] at apart
  refine ⟨Record.restates_parameters distinct reads apart writes fun parameter known => ?_, ?_⟩
  · exact Content.retained (allows_of_placed (placed_parameters operation parameter known))
  · intro other within same
    have known := (Record.names_of_writeAll? writes).subset (List.mem_map_of_mem within)
    exact unnamed (same ▸ List.mem_map_of_mem known)

theorem restored_filter (distinct : Json.Distinct (.object members)) {held : Condition}
    (read : Operation.ofMembers members (.filter held) = .ok operation)
    (writes : operation.toMembers? = some others) : Restored members others := by
  obtain ⟨document, gathered, read⟩ := Attempt.bind_eq_ok.mp read
  obtain ⟨condition, reads, same⟩ := Attempt.bind_eq_ok.mp read
  cases same
  obtain ⟨written, write, same⟩ := Option.bind_eq_some_iff.mp writes
  cases same
  have stores (held : Json) : ∀ field ∈ Operation.filterFields held,
      Record.Stores (fun _ => ["condition"]) (fun document _ => document)
        (fun _ _ json found => found = json) held field := by
    refine List.forall_mem_singleton.mpr ⟨List.mem_singleton_self _, fun json next stored => ?_⟩
    cases stored
    exact ⟨rfl, rfl, fun other known different => absurd (List.mem_singleton.mp known) different⟩
  have takes := Record.read_eq_ok_iff.mp (Attempt.inside_eq_ok.mp gathered)
  rw [← List.map_id members] at takes
  have gathered := takes.gathered (by decide) stores (by rw [List.map_map]; exact distinct.unlike)
  have found : document = valueOf members "condition" :=
    gathered.fits_valueOf id distinct.unlike (List.mem_singleton_self _) rfl
  have mirrors := (Condition.ofJson_eq_ok_iff (found ▸ distinct.valueOf _) condition).mp reads
  have kept := Condition.kept_of_mirrors (found ▸ distinct.valueOf _) mirrors write
  refine ⟨Json.restates_of_written ?_ (List.nodup_singleton _) (List.forall_mem_singleton.mpr ?_), ?_⟩
  · exact fun member within => gathered.declared _ (List.mem_map_of_mem within)
  · have plain : folded "condition" ∉ spareFields.map folded := by decide
    exact .of_free (not_surplus plain) (found ▸ kept)
  · have unnamed : folded "condition" ≠ folded "name" := by decide
    exact List.forall_mem_singleton.mpr unnamed

theorem restored_ifThenElse (distinct : Json.Distinct (.object members)) {newColumn : String}
    {held : Branch} (read : Operation.ofMembers members (.ifThenElse newColumn held) = .ok operation)
    (writes : operation.toMembers? = some others) : Restored members others := by
  obtain ⟨parts, gathered, read⟩ := Attempt.bind_eq_ok.mp read
  obtain ⟨branch, reads, same⟩ := Attempt.bind_eq_ok.mp read
  cases same
  obtain ⟨inner, write, same⟩ := Option.bind_eq_some_iff.mp writes
  cases same
  have gathers := Branch.gathers_of_readParts (by decide) Branch.stores_stepFields
    Branch.stepFields_keeps distinct.unlike gathered
  have keptName : Json.Kept (valueOf members "new_column") (.string parts.newColumn) :=
    gathers.kept "new_column" List.mem_cons_self
  have continues : ∀ member ∈ members, Branch.Continues member.2 :=
    fun member within => Branch.continues_of_distinct (distinct.member member within)
  obtain ⟨test, consequent, alternative, rfl, keptTest, keptFirst, keptSecond⟩ :=
    gathers.kept_of_ofParts (fun _ => List.mem_cons_of_mem _) distinct continues reads write
  have unlike : (["new_column", "if", "then", "else"].map folded).Nodup := by decide
  refine ⟨Json.restates_of_written gathers.declared unlike ?_, ?_⟩
  · simp only [List.forall_mem_cons, List.not_mem_nil, false_implies, implies_true, and_true]
    refine ⟨.of_free ?_ keptName, .of_free ?_ keptTest, .of_free ?_ keptFirst, .of_free ?_ keptSecond⟩
    all_goals exact not_surplus (by decide)
  · simp only [List.forall_mem_cons, List.not_mem_nil, false_implies, implies_true, and_true]
    decide

theorem restored_operation (distinct : Json.Distinct (.object members)) (start : blank ∈ Operation.blanks)
    (read : Operation.ofMembers members blank = .ok operation)
    (writes : operation.toMembers? = some others) : Restored members others := by
  cases blank with
  | filter => exact restored_filter distinct read writes
  | ifThenElse => exact restored_ifThenElse distinct read writes
  | _ => exact restored_plain distinct start id read writes

end Operations

end Step

end StepQuery
