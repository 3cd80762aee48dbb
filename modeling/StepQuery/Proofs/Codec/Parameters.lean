import StepQuery.Pipeline.Write
import StepQuery.Proofs.Codec.Strictness

/-!
Records as lists of named parameters.  All fields of a record take their members in by the kind of what
they hold, so a record that is read strictly is determined, parameter by parameter, by what the members of
the document say.
-/

namespace StepQuery

namespace Record

theorem text_eq_iff {json : Json} {held found : String} :
    text json held = (found, none) ↔ json = .string found ∨ json = .null ∧ found = held := by
  cases json <;> simp [text, misfit, eq_comm]

theorem value_eq_iff {json : Json} {held found : Value} :
    value json held = (found, none) ↔ Value.ofJson? json = some found := by
  unfold value
  cases Value.ofJson? json <;> simp [misfit]

/-- What a field holds, by its kind. -/
inductive Content where
  | text (value : String)
  | flag (value : Bool)
  | whole (value : Int)
  | value (value : Value)
  | texts (values : ColumnList)
  | textPairs (pairs : ColumnPairs)
  | valuePairs (pairs : Option (List (Value × Value)))
  | sortKeys (keys : Option (List SortKey))
  | aggregations (aggregations : Option (List Aggregation))

namespace Content

/-- Take a document in by the rules of one kind. -/
def stored {α : Type} (store : Store α) (kind : α → Content) (json : Json) (held : α) :
    Content × Option Cause :=
  let (found, misfit) := store json held
  (kind found, misfit)

/-- Take a document in, as the field does that holds the content. -/
def take : Content → Json → Content × Option Cause
  | .text held, json => stored Record.text .text json held
  | .flag held, json => stored Record.flag .flag json held
  | .whole held, json => stored Record.whole .whole json held
  | .value held, json => stored Record.value .value json held
  | .texts held, json => stored Record.texts .texts json held
  | .textPairs held, json => stored Record.textPairs .textPairs json held
  | .valuePairs held, json => stored (list (.null, .null) (pair .null Record.value)) .valuePairs json held
  | .sortKeys held, json => stored (list ⟨"", ""⟩ sortKey) .sortKeys json held
  | .aggregations held, json => stored (list ⟨none, none, ""⟩ aggregation) .aggregations json held

/-- The content of a field that nothing was taken into. -/
def cleared : Content → Content
  | .text _ => .text ""
  | .flag _ => .flag false
  | .whole _ => .whole 0
  | .value _ => .value .null
  | .texts _ => .texts none
  | .textPairs _ => .textPairs none
  | .valuePairs _ => .valuePairs none
  | .sortKeys _ => .sortKeys none
  | .aggregations _ => .aggregations none

theorem stored_eq_iff {α : Type} {store : Store α} {kind : α → Content}
    (injective : Function.Injective kind) {json : Json} {held found : α} :
    stored store kind json held = (kind found, none) ↔ store json held = (found, none) := by
  rw [stored, Prod.mk.injEq, injective.eq_iff, Prod.ext_iff]

theorem take_cleared_null (content : Content) : content.cleared.take .null = (content.cleared, none) := by
  cases content <;> rfl

/-- The document of a content. -/
def write? : Content → Option Json
  | .text held => some (.string held)
  | .flag held => some (.bool held)
  | .whole held => some (.number (Decimal.integerText held))
  | .value held => held.toJson?
  | .texts held => some held.toJson
  | .textPairs held => some held.toJson
  | .valuePairs none => some .null
  | .valuePairs (some held) => (Operation.pairItems? held).map .array
  | .sortKeys held => some (Operation.listJson Operation.sortKeyJson held)
  | .aggregations held => some (Operation.listJson Operation.aggregationJson held)

/-- Nothing worth being written when the field is optional. -/
def isEmpty : Content → Bool
  | .text held => held == ""
  | .flag held => !held
  | .texts none | .texts (some []) => true
  | _ => false

end Content

/-- A field with what it holds.  An optional one is not written when it holds nothing. -/
structure Parameter where
  name : String
  content : Content
  optional : Bool := false

variable {ρ μ : Type} {parameters : ρ → List Parameter} {document : μ → Json}
  {fields : ρ → List (String × (μ → Attempt (ρ × Option Cause)))}

/-- A field takes a member in by changing the content of the one parameter of its name. -/
def Updates (parameters : ρ → List Parameter) (document : μ → Json) (record : ρ)
    (field : String × (μ → Attempt (ρ × Option Cause))) : Prop :=
  ∃ before parameter after, parameters record = before ++ parameter :: after ∧
    field.1 = parameter.name ∧
    ∀ member, ∃ next,
      field.2 member = .ok (next, (parameter.content.take (document member)).2) ∧
        parameters next =
          before ++ { parameter with content := (parameter.content.take (document member)).1 } :: after

/-- The names of the parameters of a record. -/
def namesOf (parameters : ρ → List Parameter) (record : ρ) : List String :=
  (parameters record).map (·.name)

def parameter? (parameters : ρ → List Parameter) (record : ρ) (name : String) : Option Parameter :=
  (parameters record).find? (·.name == name)

/-- What a document makes of a parameter. -/
def Becomes (document : μ → Json) (held : Option Parameter) (member : μ) (found : Option Parameter) : Prop :=
  ∃ parameter content, held = some parameter ∧ found = some { parameter with content } ∧
    parameter.content.take (document member) = (content, none)

theorem Updates.stores {record : ρ} (apart : (namesOf parameters record).Nodup)
    {field : String × (μ → Attempt (ρ × Option Cause))} (updates : Updates parameters document record field) :
    Stores (namesOf parameters) (parameter? parameters) (fun _ => Becomes document) record field := by
  obtain ⟨before, parameter, after, is, named, taken⟩ := updates
  rw [namesOf, is, List.map_append, List.map_cons] at apart
  have first : ∀ other ∈ before, ¬ other.name = parameter.name := by
    intro other within same
    exact (List.disjoint_of_nodup_append apart) (List.mem_map_of_mem within) (same ▸ List.mem_cons_self)
  have found (content : Content) (record : ρ)
      (is : parameters record = before ++ { parameter with content } :: after) :
      parameter? parameters record parameter.name = some { parameter with content } := by
    rw [parameter?, is, List.find?_append, List.find?_eq_none.mpr (by simpa using first)]
    simp
  refine ⟨by simp [namesOf, is, named], fun member next stored => ?_⟩
  obtain ⟨found', read, becomes⟩ := taken member
  obtain ⟨rfl, missed⟩ := Prod.mk.inj (Except.ok.inj (read.symm.trans stored))
  refine ⟨by simp [namesOf, is, becomes], ?_, ?_⟩
  · rw [named]
    exact ⟨parameter, _, found _ _ is, found _ _ becomes, Prod.ext rfl missed⟩
  · intro other _ different
    have apart : ¬ parameter.name = other := fun same => different (named.trans same).symm
    simp [parameter?, is, becomes, List.find?_append, apart]

/-- The parameters that a strict reading of a document makes of cleared ones. -/
structure Reads (members : List (String × Json)) (found : List Parameter) : Prop where
  declared : ∀ member ∈ members, ∃ parameter ∈ found, folded member.1 = folded parameter.name
  taken : ∀ parameter ∈ found,
    parameter.content.cleared.take (valueOf members parameter.name) = (parameter.content, none)

theorem Content.cleared_take (content : Content) (json : Json) :
    (content.take json).1.cleared = content.cleared := by
  cases content <;> rfl

/-- A reading into a cleared record makes of every parameter what the member of its name says. -/
theorem Takes.reads (lift : Json → μ) {members : List (String × Json)} {start result : ρ}
    (updates : ∀ record, ∀ field ∈ fields record, Updates parameters document record field)
    (apart : ∀ record, ((namesOf parameters record).map folded).Nodup)
    (clear : ∀ parameter ∈ parameters start, parameter.content.cleared = parameter.content)
    (unlike : (members.map fun member => folded member.1).Nodup)
    (lifted : ∀ json, document (lift json) = json)
    (takes : Takes fields (members.map fun member => (member.1, lift member.2)) start result) :
    Reads members (parameters result) ∧ namesOf parameters result = namesOf parameters start := by
  have different (record : ρ) : (namesOf parameters record).Nodup := .of_map _ (apart record)
  have gathered := takes.gathered (apart start)
    (fun record field declared => (updates record field declared).stores (different record))
    (by rw [List.map_map]; exact unlike)
  have located {record : ρ} {parameter : Parameter} (within : parameter ∈ parameters record) :
      parameter? parameters record parameter.name = some parameter := by
    obtain ⟨found, located⟩ := Option.isSome_iff_exists.mp
      (List.find?_isSome (p := (·.name == parameter.name)) |>.mpr ⟨parameter, within, beq_self_eq_true _⟩)
    have same : found.name = parameter.name := by simpa using List.find?_some located
    rw [parameter?, located,
      List.inj_on_of_nodup_map (different record) (List.mem_of_find?_eq_some located) within same]
  refine ⟨⟨?_, ?_⟩, gathered.named⟩
  · intro member within
    obtain ⟨name, known, same⟩ := gathered.declared _ (List.mem_map_of_mem within)
    obtain ⟨parameter, present, rfl⟩ := List.mem_map.mp (gathered.named ▸ known)
    exact ⟨parameter, present, same⟩
  · intro parameter within
    have known : parameter.name ∈ namesOf parameters start :=
      gathered.named ▸ List.mem_map_of_mem within
    obtain ⟨blank, present, same⟩ := List.mem_map.mp known
    have silent : Becomes document (parameter? parameters start parameter.name) (lift .null)
        (parameter? parameters start parameter.name) := by
      rw [← same, located present]
      refine ⟨blank, blank.content, rfl, rfl, ?_⟩
      rw [lifted, ← clear blank present, Content.take_cleared_null]
    obtain ⟨held, content, began, becomes, taken⟩ := gathered.fits_valueOf lift unlike known silent
    rw [← same, located present] at began
    rw [located within] at becomes
    cases began
    cases becomes
    rw [lifted] at taken
    have kept : content.cleared = blank.content := by
      rw [← clear blank present, ← blank.content.cleared_take, taken]
    rw [kept]
    exact taken

/-- The members of a parameter: one, or none if it is optional and holds nothing. -/
def Parameter.write? (parameter : Parameter) : Option (List (String × Json)) :=
  if parameter.optional && parameter.content.isEmpty then some []
  else parameter.content.write?.map fun json => [(parameter.name, json)]

def writeAll? : List Parameter → Option (List (String × Json))
  | [] => some []
  | parameter :: rest => do
    let first ← parameter.write?
    let others ← writeAll? rest
    return first ++ others

end Record

/-! ### Comparisons -/

/-- The parameters of a comparison. -/
def Comparison.parameters (comparison : Comparison) : List Record.Parameter :=
  [⟨"column", .text comparison.column, false⟩, ⟨"operator", .text comparison.operator, false⟩,
    ⟨"value", .value comparison.value, false⟩]

theorem Condition.updates_comparison (comparison : Comparison) :
    ∀ field ∈ comparisonFields comparison,
      Record.Updates Comparison.parameters Member.json comparison field := by
  refine List.forall_mem_cons.mpr ⟨?_, List.forall_mem_cons.mpr ⟨?_, List.forall_mem_singleton.mpr ?_⟩⟩
  · exact ⟨[], _, _, rfl, rfl, fun _ => ⟨_, rfl, rfl⟩⟩
  · exact ⟨[_], _, _, rfl, rfl, fun _ => ⟨_, rfl, rfl⟩⟩
  · exact ⟨[_, _], _, _, rfl, rfl, fun _ => ⟨_, rfl, rfl⟩⟩

/-! ### Records in lists -/

def SortKey.parameters (key : SortKey) : List Record.Parameter :=
  [⟨"column", .text key.column, false⟩, ⟨"order", .text key.order, false⟩]

def Aggregation.parameters (aggregation : Aggregation) : List Record.Parameter :=
  [⟨"columns", .texts aggregation.columns, false⟩, ⟨"newcolumns", .texts aggregation.newColumns, false⟩,
    ⟨"aggfunction", .text aggregation.function, false⟩]

end StepQuery
