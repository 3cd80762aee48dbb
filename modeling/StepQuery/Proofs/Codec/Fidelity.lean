import StepQuery.Proofs.Codec.Condition
import StepQuery.Proofs.Codec.Parameters
import StepQuery.Proofs.Codec.Retention

/-!
What the fields of a record take in is written again, kind by kind: free values say what the document says,
lists are retained if their items are, and pairs are retained but for the items after the second.
-/

namespace StepQuery

open Json (Key Datum Alike Retains Restates itemAt)

/-! ### Numbers -/

namespace Json

variable {path : List Key} {datum : Datum}

theorem holds_number_iff {literal : String} : Holds (.number literal) path datum ↔
    path = [] ∧ ∃ value, datum = .number value ∧ Value.finite? literal = some value ∧
      (value == 0) = false := by
  constructor
  · rintro (_ | ⟨denotes, nonzero⟩)
    exact ⟨rfl, _, rfl, denotes, nonzero⟩
  · rintro ⟨rfl, value, rfl, denotes, nonzero⟩
    exact .number denotes nonzero

theorem alike_number {literal other : String} (same : ∀ value, (value == 0) = false →
      (Value.finite? literal = some value ↔ Value.finite? other = some value)) :
    Alike (.number literal) (.number other) := fun path datum => by
  rw [holds_number_iff, holds_number_iff]
  exact and_congr_right fun _ => exists_congr fun value =>
    and_congr_right fun _ => and_congr_left (same value)

end Json

namespace Value

/-- The number other than zero that a literal denotes is that of the decimal that it spells. -/
theorem finite?_eq_some_iff {literal : String} {number : Decimal} {value : Float}
    (read : Decimal.ofNumeral? literal.toList = some number) (nonzero : (value == 0) = false) :
    finite? literal = some value ↔ number.toFloat = value ∧ number.toFloat.isFinite = true := by
  have zero : ((-0.0 : Float) == 0) = true := by decide +kernel
  unfold finite?
  rw [read]
  simp only
  split
  next infinite =>
    refine iff_of_false nofun fun ⟨_, finite⟩ => ?_
    rw [finite] at infinite
    cases infinite
  next finite =>
    rw [Bool.not_eq_true, Bool.not_eq_false'] at finite
    split
    next negative =>
      rw [Bool.and_eq_true] at negative
      refine iff_of_false (fun found => ?_) fun ⟨same, _⟩ => ?_
      · rw [← Option.some.inj found, zero] at nonzero
        cases nonzero
      · rw [← same, negative.1] at nonzero
        cases nonzero
    next => simp [finite]

/-- A whole number says the same however its literal spells it. -/
theorem alike_integerText {literal : String} {n : Int} (read : Decimal.integer? literal.toList = some n) :
    Alike (.number literal) (.number (Decimal.integerText n)) := by
  have literal := Decimal.ofNumeral?_of_integer? read
  have written := Decimal.ofNumeral?_of_integer? (Decimal.integer?_integerText n)
  refine Json.alike_number fun value nonzero => ?_
  rw [finite?_eq_some_iff literal nonzero, finite?_eq_some_iff written nonzero]

/-! ### Free values -/

/-- Every item of two lists that are related item by item has a partner. -/
theorem exists_partners {α β : Type} {related : α → β → Prop} {first : List α} {second : List β}
    (pairs : List.Forall₂ related first second) :
    (∀ left ∈ first, ∃ right ∈ second, related left right) ∧
      ∀ right ∈ second, ∃ left ∈ first, related left right := by
  induction pairs with
  | nil => exact ⟨nofun, nofun⟩
  | cons head _ inductionHypothesis =>
    obtain ⟨forth, back⟩ := inductionHypothesis
    refine ⟨List.forall_mem_cons.mpr ⟨⟨_, List.mem_cons_self, head⟩, fun left within => ?_⟩,
      List.forall_mem_cons.mpr ⟨⟨_, List.mem_cons_self, head⟩, fun right within => ?_⟩⟩
    · obtain ⟨right, member, pair⟩ := forth left within
      exact ⟨right, List.mem_cons_of_mem _ member, pair⟩
    · obtain ⟨left, member, pair⟩ := back right within
      exact ⟨left, List.mem_cons_of_mem _ member, pair⟩

theorem forall₂_ofMembers? {members : List (String × Json)} {entries : List (String × Value)}
    (read : ofMembers? members = some entries) :
    List.Forall₂ (fun member entry => member.1 = entry.1 ∧ ofJson? member.2 = some entry.2) members
      entries := by
  have cons (member : String × Json) (rest : List (String × Json)) : ofMembers? (member :: rest) = do
      let first ← (ofJson? member.2).map (Prod.mk member.1)
      let others ← ofMembers? rest
      return first :: others := by
    rw [ofMembers?]
    cases ofJson? member.2 <;> rfl
  refine (forall₂_of_itemwise read rfl cons).imp fun member entry denotes => ?_
  obtain ⟨value, found, rfl⟩ := Option.map_eq_some_iff.mp denotes
  exact ⟨rfl, found⟩

theorem forall₂_toMembers? {entries : List (String × Value)} {members : List (String × Json)}
    (writes : toMembers? entries = some members) :
    List.Forall₂ (fun entry member => entry.1 = member.1 ∧ entry.2.toJson? = some member.2) entries
      members := by
  have cons (entry : String × Value) (rest : List (String × Value)) : toMembers? (entry :: rest) = do
      let first ← entry.2.toJson?.map (Prod.mk entry.1)
      let others ← toMembers? rest
      return first :: others := by
    rw [toMembers?]
    cases entry.2.toJson? <;> rfl
  refine (forall₂_of_itemwise writes rfl cons).imp fun entry member written => ?_
  obtain ⟨json, found, rfl⟩ := Option.map_eq_some_iff.mp written
  exact ⟨rfl, found⟩

/-- A value is written as a document that says what the document said that it was read from. -/
theorem alike_of_ofJson? {json : Json} (distinct : json.Distinct) {value : Value} {written : Json}
    (read : ofJson? json = some value) (writes : value.toJson? = some written) : Alike json written := by
  induction distinct generalizing value written with
  | null =>
    cases read
    cases writes
    exact .refl _
  | bool held =>
    cases read
    cases writes
    exact .refl _
  | string held =>
    cases read
    cases writes
    exact .refl _
  | number literal =>
    rw [ofJson?] at read
    obtain ⟨number, denotes, rfl⟩ := Option.map_eq_some_iff.mp read
    rw [toJson?] at writes
    split at writes
    next finite =>
      cases writes
      have again := (NumberStyle.float_numeral finite).2
      exact Json.alike_number fun value _ => by rw [denotes, again]
    next => cases writes
  | array each inductionHypothesis =>
    rw [ofJson?] at read
    obtain ⟨values, denote, rfl⟩ := Option.map_eq_some_iff.mp read
    rw [toJson?] at writes
    obtain ⟨texts, write, rfl⟩ := Option.map_eq_some_iff.mp writes
    have reads := forall₂_of_itemwise denote rfl fun _ _ => rfl
    have writes := forall₂_of_itemwise write rfl fun _ _ => rfl
    exact Json.alike_items reads writes fun item within _ _ => inductionHypothesis item within
  | @object members unlike each inductionHypothesis =>
    rw [ofJson?] at read
    obtain ⟨entries, denote, rfl⟩ := Option.map_eq_some_iff.mp read
    rw [toJson?] at writes
    obtain ⟨others, write, rfl⟩ := Option.map_eq_some_iff.mp writes
    have different : (members.map (·.1)).Nodup := by
      refine .of_map Record.folded ?_
      rw [List.map_map]
      exact unlike
    rw [← names_of_ofMembers? denote] at different
    have entry_iff (entry : String × Value) : entry ∈ Fields.ofList entries ↔ entry ∈ entries :=
      (Fields.perm_ofList different).mem_iff
    have reads := exists_partners (forall₂_ofMembers? denote)
    have written := exists_partners (forall₂_toMembers? write)
    have alike {member other : String × Json} {entry : String × Value} (within : member ∈ members)
        (reads : member.1 = entry.1 ∧ ofJson? member.2 = some entry.2)
        (writes : entry.1 = other.1 ∧ entry.2.toJson? = some other.2) :
        member.1 = other.1 ∧ Alike member.2 other.2 :=
      ⟨reads.1.trans writes.1, inductionHypothesis member within reads.2 writes.2⟩
    intro path datum
    constructor
    · rintro (_ | _ | _ | _ | _ | ⟨within, holds⟩)
      · exact .object others
      · obtain ⟨entry, found, reads⟩ := reads.1 _ within
        obtain ⟨other, present, writes⟩ := written.1 entry ((entry_iff entry).mpr found)
        obtain ⟨same, alike⟩ := alike within reads writes
        rw [same]
        exact .member present ((alike _ _).mp holds)
    · rintro (_ | _ | _ | _ | _ | ⟨present, holds⟩)
      · exact .object members
      · obtain ⟨entry, found, writes⟩ := written.2 _ present
        obtain ⟨member, within, reads⟩ := reads.2 entry ((entry_iff entry).mp found)
        obtain ⟨same, alike⟩ := alike within reads writes
        rw [← same]
        exact .member within ((alike _ _).mpr holds)

end Value

namespace Record

variable {α : Type} {spare : List Key → Prop} {store : Store α} {writes : α → Json → Prop} {blank : α}

/-- What a field takes in when it holds nothing is retained by what is written for it. -/
def Faithful (spare : List Key → Prop) (store : Store α) (writes : α → Json → Prop) (blank : α) : Prop :=
  ∀ json found written, json.Distinct → store json blank = (found, none) → writes found written →
    Retains spare json written

/-! ### Plain fields -/

theorem faithful_text (top : ¬ spare []) :
    Faithful spare text (fun found written => written = .string found) "" := by
  rintro json found _ - taken rfl
  obtain rfl | ⟨rfl, rfl⟩ := text_eq_iff.mp taken
  · exact .of_alike_text (.refl _) top
  · exact .of_alike_text Json.alike_null_text top

theorem faithful_flag (top : ¬ spare []) :
    Faithful spare flag (fun found written => written = .bool found) false := by
  rintro json found _ - taken rfl
  have alike : Alike json (.bool found) := by
    cases json with
    | null =>
      cases taken
      exact fun _ _ => iff_of_false nofun nofun
    | bool =>
      cases taken
      exact .refl _
    | _ => cases taken
  refine alike.retains ?_
  rintro _ _ free (_ | _ | _)
  exact top free

/-- A zero says nothing. -/
theorem alike_null_zero : Alike .null (.number (Decimal.integerText 0)) := fun path datum => by
  refine iff_of_false Json.not_holds_null fun holds => ?_
  obtain ⟨_, value, _, denotes, nonzero⟩ := Json.holds_number_iff.mp holds
  have read := Decimal.ofNumeral?_of_integer? (Decimal.integer?_integerText 0)
  obtain ⟨rfl, _⟩ := (Value.finite?_eq_some_iff read nonzero).mp denotes
  have zero : (Decimal.toFloat ⟨0, 0⟩ == 0) = true := by decide +kernel
  rw [zero] at nonzero
  cases nonzero

theorem faithful_whole (top : ¬ spare []) :
    Faithful spare whole (fun found written => written = .number (Decimal.integerText found)) 0 := by
  rintro json found _ - taken rfl
  have alike : Alike json (.number (Decimal.integerText found)) := by
    cases json with
    | null =>
      cases taken
      exact alike_null_zero
    | number literal =>
      simp only [whole] at taken
      split at taken
      next read =>
        split at taken
        · cases taken
          exact Value.alike_integerText read
        · cases taken
      next => cases taken
    | _ => cases taken
  refine alike.retains ?_
  rintro _ _ free (_ | _ | _)
  exact top free

theorem faithful_value (free : ∀ path, ¬ spare path) :
    Faithful spare value (fun found written => found.toJson? = some written) .null :=
  fun _ _ _ distinct taken written =>
    (Value.alike_of_ofJson? distinct (value_eq_iff.mp taken) written).retains
      fun path _ spared _ => free path spared

/-! ### Lists -/

/-- A list is written item by item, and null for none. -/
inductive WritesList (writes : α → Json → Prop) : Option (List α) → Json → Prop
  | none : WritesList writes none .null
  | some {items : List α} {written : List Json} (each : List.Forall₂ writes items written) :
      WritesList writes (some items) (.array written)

theorem items_eq_iff {documents : List Json} {found : List α} :
    items blank store documents [] = (found, none) ↔
      List.Forall₂ (fun json item => store json blank = (item, none)) documents found := by
  induction documents generalizing found with
  | nil => simp [items, eq_comm]
  | cons json rest inductionHypothesis =>
    rw [List.forall₂_cons_left_iff]
    simp only [← inductionHypothesis]
    constructor
    · intro taken
      obtain ⟨rfl, missed⟩ := Prod.mk.inj taken
      obtain ⟨first, others⟩ : (store json blank).2 = none ∧ (items blank store rest []).2 = none := by
        simpa using missed
      exact ⟨_, _, Prod.ext rfl first, Prod.ext rfl others, rfl⟩
    · rintro ⟨item, later, first, others, rfl⟩
      rw [items, List.headD_nil, List.tail_nil, first, others]
      rfl

theorem faithful_list
    (each : ∀ index, Faithful (fun rest => spare (.item index :: rest)) store writes blank) :
    Faithful spare (list blank store) (WritesList writes) none := by
  intro json found written distinct taken writesAll
  cases json with
  | null =>
    cases taken
    cases writesAll
    exact .null
  | array documents =>
    obtain ⟨rfl, missed⟩ := Prod.mk.inj taken
    obtain _ | ⟨writesAll⟩ := writesAll
    refine Retains.items (items_eq_iff.mp (Prod.ext rfl missed)) writesAll ?_
    exact fun index json within item other taken writes =>
      each index json item other (distinct.item json within) taken writes
  | _ => cases taken

/-! ### Pairs -/

/-- A pair is written as a list of two. -/
def WritesPair (writes : α → Json → Prop) (pair : α × α) (written : Json) : Prop :=
  ∃ first second, written = .array [first, second] ∧ writes pair.1 first ∧ writes pair.2 second

/-- A pair takes in the first two items of a list, which are null where they are missing. -/
theorem exists_items_of_pair (quiet : store .null blank = (blank, none)) {json : Json}
    (distinct : json.Distinct) {found : α × α} (taken : pair blank store json (blank, blank) = (found, none)) :
    ∃ items, Alike json (.array items) ∧ (∀ index, (itemAt items index).Distinct) ∧
      store (itemAt items 0) blank = (found.1, none) ∧ store (itemAt items 1) blank = (found.2, none) := by
  cases json with
  | null =>
    cases taken
    exact ⟨[], Json.alike_null_array_nil, fun _ => .null, quiet, quiet⟩
  | array items =>
    refine ⟨items, .refl _, distinct.itemAt, ?_⟩
    match items with
    | [] =>
      cases taken
      exact ⟨quiet, quiet⟩
    | [only] =>
      obtain ⟨rfl, missed⟩ := Prod.mk.inj taken
      exact ⟨Prod.ext rfl missed, quiet⟩
    | left :: right :: _ =>
      obtain ⟨rfl, missed⟩ := Prod.mk.inj taken
      obtain ⟨first, second⟩ : (store left blank).2 = none ∧ (store right blank).2 = none := by
        simpa using missed
      exact ⟨Prod.ext rfl first, Prod.ext rfl second⟩
  | _ => cases taken

theorem faithful_pair (quiet : store .null blank = (blank, none))
    (first : Faithful (fun rest => spare (.item 0 :: rest)) store writes blank)
    (second : Faithful (fun rest => spare (.item 1 :: rest)) store writes blank)
    (beyond : ∀ place rest, 2 ≤ place → spare (.item place :: rest)) :
    Faithful spare (pair blank store) (WritesPair writes) (blank, blank) := by
  rintro json found _ distinct taken ⟨left, right, rfl, writesLeft, writesRight⟩
  obtain ⟨items, alike, distinct, takenLeft, takenRight⟩ := exists_items_of_pair quiet distinct taken
  refine Retains.of_alike_left alike (Retains.array fun index => ?_)
  match index with
  | 0 => exact first _ _ _ (distinct 0) takenLeft writesLeft
  | 1 => exact second _ _ _ (distinct 1) takenRight writesRight
  | place + 2 => exact .of_spare fun rest => beyond (place + 2) rest (Nat.le_add_left 2 place)

/-! ### Parameters -/

/-- What the parameter takes in when it holds nothing is retained by what is written for it. -/
def Content.Retained (spare : List Key → Prop) (content : Content) : Prop :=
  ∀ json written, json.Distinct → content.cleared.take json = (content, none) →
    content.write? = some written → Retains spare json written

theorem Faithful.retained {kind : α → Content} (faithful : Faithful spare store writes blank)
    (injective : Function.Injective kind) {found : α}
    (takes : (kind found).cleared.take = fun json => Content.stored store kind json blank)
    (writes' : ∀ json, (kind found).write? = some json → writes found json) :
    (kind found).Retained spare := by
  intro json written distinct taken write
  rw [takes] at taken
  exact faithful json found written distinct ((Content.stored_eq_iff injective).mp taken)
    (writes' written write)

/-- What is left out because it holds nothing would say nothing. -/
theorem Content.exists_of_isEmpty {content : Content} (empty : content.isEmpty = true) :
    ∃ json, content.write? = some json ∧ Alike json .null := by
  cases content with
  | text held =>
    obtain rfl := eq_of_beq empty
    exact ⟨_, rfl, Json.alike_null_text.symm⟩
  | flag held =>
    obtain rfl := Bool.not_eq_true' _ |>.mp empty
    exact ⟨_, rfl, fun _ _ => iff_of_false nofun nofun⟩
  | texts held =>
    rcases held with _ | _ | _
    · exact ⟨_, rfl, .refl _⟩
    · exact ⟨_, rfl, Json.alike_null_array_nil.symm⟩
    · cases empty
  | _ => cases empty

theorem names_of_writeAll? {parameters : List Parameter} {others : List (String × Json)}
    (written : writeAll? parameters = some others) :
    (others.map (·.1)).Sublist (parameters.map (·.name)) := by
  induction parameters generalizing others with
  | nil =>
    cases written
    exact .slnil
  | cons parameter rest inductionHypothesis =>
    obtain ⟨first, write, written⟩ := Option.bind_eq_some_iff.mp written
    obtain ⟨later, writes, same⟩ := Option.bind_eq_some_iff.mp written
    cases same
    rw [List.map_append, List.map_cons]
    have others := inductionHypothesis writes
    unfold Parameter.write? at write
    split at write
    · cases write
      exact others.cons _
    · obtain ⟨json, _, rfl⟩ := Option.map_eq_some_iff.mp write
      exact others.cons_cons _

/-- Of every parameter, its document is found under its name, or nothing if that would say nothing. -/
theorem exists_written {parameters : List Parameter} {others : List (String × Json)}
    (apart : (parameters.map fun parameter => folded parameter.name).Nodup)
    (written : writeAll? parameters = some others) :
    ∀ parameter ∈ parameters, ∃ json, parameter.content.write? = some json ∧
      Alike json (valueOf others parameter.name) := by
  induction parameters generalizing others with
  | nil => exact nofun
  | cons parameter rest inductionHypothesis =>
    obtain ⟨alone, apart⟩ := List.nodup_cons.mp apart
    obtain ⟨first, write, written⟩ := Option.bind_eq_some_iff.mp written
    obtain ⟨later, writes, same⟩ := Option.bind_eq_some_iff.mp written
    cases same
    have absent : ∀ member ∈ later, folded member.1 ≠ folded parameter.name := by
      intro member within same
      obtain ⟨other, present, named⟩ := List.mem_map.mp
        ((names_of_writeAll? writes).subset (List.mem_map_of_mem within))
      exact alone (List.mem_map.mpr ⟨other, present, (congrArg folded named).trans same⟩)
    have elsewhere : ∀ other ∈ rest, folded parameter.name ≠ folded other.name :=
      fun other within same => alone (List.mem_map.mpr ⟨other, within, same.symm⟩)
    unfold Parameter.write? at write
    split at write
    next left =>
      cases write
      obtain ⟨json, write, alike⟩ := Content.exists_of_isEmpty (Bool.and_eq_true _ _ ▸ left).2
      rw [List.nil_append]
      refine List.forall_mem_cons.mpr ⟨⟨json, write, ?_⟩, inductionHypothesis apart writes⟩
      rw [valueOf_eq_null absent]
      exact alike
    next =>
      obtain ⟨json, content, rfl⟩ := Option.map_eq_some_iff.mp write
      refine List.forall_mem_cons.mpr ⟨⟨json, content, ?_⟩, fun other within => ?_⟩
      · rw [List.singleton_append, valueOf_cons, if_pos rfl]
        exact .refl _
      · rw [List.singleton_append, valueOf_cons, if_neg (elsewhere other within)]
        exact inductionHypothesis apart writes other within

/-- A record is restated if its parameters are. -/
theorem restates_parameters {members others : List (String × Json)} {parameters : List Parameter}
    (distinct : Json.Distinct (.object members)) (reads : Reads members parameters)
    (apart : (parameters.map fun parameter => folded parameter.name).Nodup)
    (written : writeAll? parameters = some others)
    (each : ∀ parameter ∈ parameters,
      parameter.content.Retained fun rest => spare (.field (folded parameter.name) :: rest)) :
    Restates spare members others := by
  have names := names_of_writeAll? written
  have unlike : (others.map fun member => folded member.1).Nodup := by
    have sublist := names.map folded
    rw [List.map_map, List.map_map] at sublist
    exact apart.sublist sublist
  have declared : ∀ member ∈ members, ∃ name ∈ parameters.map (·.name), folded member.1 = folded name := by
    intro member within
    obtain ⟨parameter, known, same⟩ := reads.declared member within
    exact ⟨parameter.name, List.mem_map_of_mem known, same⟩
  refine Json.restates_of_fields declared ?_ unlike ?_
  · exact fun member within => ⟨member.1, names.subset (List.mem_map_of_mem within), rfl⟩
  · refine List.forall_mem_map.mpr fun parameter known => ?_
    obtain ⟨json, write, alike⟩ := exists_written apart written parameter known
    exact (each parameter known _ json (distinct.valueOf _) (reads.taken parameter known) write).of_alike_right
      alike

/-! ### Nested records -/

section Nested

variable {ρ : Type} {fields : ρ → List (String × (Json → ρ × Option Cause))} {parameters : ρ → List Parameter}

/-- The fields of a nested record, which never refuse outright. -/
def lifted (fields : ρ → List (String × (Json → ρ × Option Cause))) (record : ρ) :
    List (String × (Json → Attempt (ρ × Option Cause))) :=
  (fields record).map fun field => (field.1, fun json => .ok (field.2 json))

theorem field?_map {α β : Type} (declared : List (String × α)) (change : α → β) (written : String) :
    field? (declared.map fun field => (field.1, change field.2)) written =
      (field? declared written).map change := by
  unfold field?
  simp only [List.find?_map, Function.comp_def]
  cases declared.find? fun field => field.1 == written with
  | some field => rfl
  | none =>
    simp only [Option.map_none, Option.map_map]
    rfl

theorem nestedMembers_eq_iff {members : List (String × Json)} {record result : ρ} :
    nestedMembers fields members record = (result, none) ↔ Takes (lifted fields) members record result := by
  induction members generalizing record with
  | nil =>
    constructor
    · intro read
      cases read
      exact .nil
    · intro takes
      cases takes
      rfl
  | cons member rest inductionHypothesis =>
    obtain ⟨key, json⟩ := member
    have declares := field?_map (fields record) (fun store json => Except.ok (ε := Failure) (store json)) key
    rw [nestedMembers]
    constructor
    · intro read
      split at read
      next => cases read
      next store found =>
        obtain ⟨rfl, missed⟩ := Prod.mk.inj read
        obtain ⟨first, later⟩ : (store json).2 = none ∧
            (nestedMembers fields rest (store json).1).2 = none := by simpa using missed
        rw [found] at declares
        exact .cons declares (congrArg _ (Prod.ext rfl first)) (inductionHypothesis.mp (Prod.ext rfl later))
    · intro takes
      cases takes with
      | cons declared stored others =>
        obtain ⟨store, found, rfl⟩ := Option.map_eq_some_iff.mp (declares.symm.trans declared)
        rw [found]
        simp only
        rw [Except.ok.inj stored, inductionHypothesis.mpr others]
        rfl

theorem reads_nil {found : List Parameter}
    (clear : ∀ parameter ∈ found, parameter.content.cleared = parameter.content) : Reads [] found :=
  ⟨nofun, fun parameter within => by
    have quiet := Content.take_cleared_null parameter.content
    rw [clear parameter within] at quiet ⊢
    exact quiet⟩

/-- A record in a list is retained if its parameters are. -/
theorem faithful_nested {blank : ρ}
    (updates : ∀ record, ∀ field ∈ lifted fields record, Updates parameters id record field)
    (apart : ∀ record, ((namesOf parameters record).map folded).Nodup)
    (clear : ∀ parameter ∈ parameters blank, parameter.content.cleared = parameter.content)
    (top : ¬ spare [])
    (each : ∀ record, ∀ parameter ∈ parameters record,
      parameter.content.Retained fun rest => spare (.field (folded parameter.name) :: rest)) :
    Faithful spare (nested fields)
      (fun found written => ∃ others, writeAll? (parameters found) = some others ∧ written = .object others)
      blank := by
  rintro json found _ distinct taken ⟨others, written, rfl⟩
  have different : ((parameters found).map fun parameter => folded parameter.name).Nodup := by
    have apart := apart found
    rwa [namesOf, List.map_map] at apart
  cases json with
  | null =>
    cases taken
    have restates := restates_parameters .empty (reads_nil clear) different written
      (each _)
    exact .null_of_empty (restates.retains List.nodup_nil top)
  | object members =>
    have takes := nestedMembers_eq_iff.mp taken
    rw [← List.map_id members] at takes
    have reads := (takes.reads id updates apart clear distinct.unlike fun _ => rfl).1
    exact (restates_parameters distinct reads different written (each found)).retains distinct.unlike top
  | _ => cases taken

end Nested

/-! ### All kinds -/

/-- The places after the second in the items of a list. -/
def Beyond (path : List Key) : Prop :=
  ∃ index place rest, path = .item index :: .item place :: rest ∧ 2 ≤ place

/-- The spare places that a content may have: those after the second in its pairs. -/
def Content.Allows (spare : List Key → Prop) : Content → Prop
  | .text _ | .flag _ | .whole _ => ¬ spare []
  | .texts _ => ∀ index, ¬ spare [.item index]
  | .textPairs _ | .valuePairs _ => ∀ path, spare path ↔ Beyond path
  | .value _ | .sortKeys _ | .aggregations _ => ∀ path, ¬ spare path

theorem not_beyond_pair {index place : ℕ} (within : place < 2) (rest : List Key) :
    ¬ Beyond (.item index :: .item place :: rest) := by
  rintro ⟨_, _, _, same, beyond⟩
  cases same
  exact absurd within beyond.not_gt

theorem writesList_listJson {write : α → Json} (each : ∀ value, writes value (write value)) :
    ∀ values, WritesList writes values (Operation.listJson write values)
  | none => .none
  | some _ => .some <| List.forall₂_map_right_iff.mpr (List.forall₂_same.mpr fun value _ => each value)

theorem faithful_texts (free : ∀ index, ¬ spare [.item index]) :
    Faithful spare texts (WritesList fun found written => written = .string found) none :=
  faithful_list fun index => faithful_text (free index)

/-- Of the pairs of a list all is retained but for the places after the second. -/
theorem faithful_pairs (quiet : store .null blank = (blank, none))
    (each : ∀ {spare : List Key → Prop}, (∀ path, ¬ spare path) → Faithful spare store writes blank)
    (allows : ∀ path, spare path ↔ Beyond path) :
    Faithful spare (list (blank, blank) (pair blank store)) (WritesList (WritesPair writes)) none := by
  have within {place : ℕ} (first : place < 2) (index : ℕ) (rest : List Key) :
      ¬ spare (.item index :: .item place :: rest) :=
    fun free => not_beyond_pair first rest ((allows _).mp free)
  refine faithful_list fun index => faithful_pair quiet (each (within Nat.two_pos index))
    (each (within Nat.one_lt_two index)) ?_
  exact fun place rest beyond => (allows _).mpr ⟨index, place, rest, rfl, beyond⟩

theorem forall₂_of_pairItems? {pairs : List (Value × Value)} {written : List Json}
    (write : Operation.pairItems? pairs = some written) :
    List.Forall₂ (WritesPair fun value json => value.toJson? = some json) pairs written := by
  have cons (pair : Value × Value) (rest : List (Value × Value)) : Operation.pairItems? (pair :: rest) = do
      let first ← pair.1.toJson?.bind fun old => pair.2.toJson?.map fun new => .array [old, new]
      let others ← Operation.pairItems? rest
      return first :: others := by
    rw [Operation.pairItems?]
    cases pair.1.toJson? <;> cases pair.2.toJson? <;> rfl
  refine (forall₂_of_itemwise write rfl cons).imp fun pair json written => ?_
  obtain ⟨old, first, written⟩ := Option.bind_eq_some_iff.mp written
  obtain ⟨new, second, rfl⟩ := Option.map_eq_some_iff.mp written
  exact ⟨old, new, rfl, first, second⟩

theorem retained_text {held : String} (top : ¬ spare []) : (Content.text held).Retained spare :=
  (faithful_text top).retained (fun _ _ => Content.text.inj) rfl fun _ write => (Option.some.inj write).symm

theorem retained_texts {held : ColumnList} (free : ∀ index, ¬ spare [.item index]) :
    (Content.texts held).Retained spare := by
  refine (faithful_texts free).retained (fun _ _ => Content.texts.inj) rfl ?_
  rintro _ ⟨⟩
  have writes (values : Option (List String)) : WritesList (fun found written => written = .string found)
      values (Operation.listJson .string values) := by
    refine writesList_listJson ?_ values
    exact fun _ => rfl
  cases held with
  | none => exact writes none
  | some values => exact writes (some values)

theorem retained_textPairs {held : ColumnPairs} (allows : ∀ path, spare path ↔ Beyond path) :
    (Content.textPairs held).Retained spare := by
  refine (faithful_pairs rfl (fun free => faithful_text (free _)) allows).retained
    (fun _ _ => Content.textPairs.inj) rfl ?_
  rintro _ ⟨⟩
  have writes (pairs : Option (List (String × String))) :
      WritesList (WritesPair fun found written => written = .string found) pairs
        (Operation.listJson (fun pair => Json.texts [pair.1, pair.2]) pairs) :=
    writesList_listJson (fun _ => ⟨_, _, rfl, rfl, rfl⟩) pairs
  cases held with
  | none => exact writes none
  | some pairs => exact writes (some pairs)

/-- What is written of a record in a list. -/
abbrev WritesRecord {ρ : Type} (parameters : ρ → List Parameter) (found : ρ) (written : Json) : Prop :=
  ∃ others, writeAll? (parameters found) = some others ∧ written = .object others

theorem faithful_sortKey (free : ∀ path, ¬ spare path) :
    Faithful spare sortKey (WritesRecord SortKey.parameters) ⟨"", ""⟩ := by
  refine faithful_nested ?_ (fun _ => ?_) (List.forall_mem_cons.mpr ⟨rfl, List.forall_mem_singleton.mpr rfl⟩)
    (free _) ?_
  · intro key
    refine List.forall_mem_cons.mpr ⟨?_, List.forall_mem_singleton.mpr ?_⟩
    · exact ⟨[], _, _, rfl, rfl, fun _ => ⟨_, rfl, rfl⟩⟩
    · exact ⟨[_], _, _, rfl, rfl, fun _ => ⟨_, rfl, rfl⟩⟩
  · change (["column", "order"].map folded).Nodup
    decide
  · exact fun _ => List.forall_mem_cons.mpr
      ⟨retained_text (free _), List.forall_mem_singleton.mpr (retained_text (free _))⟩

theorem faithful_aggregation (free : ∀ path, ¬ spare path) :
    Faithful spare aggregation (WritesRecord Aggregation.parameters) ⟨none, none, ""⟩ := by
  refine faithful_nested ?_ (fun _ => ?_) (List.forall_mem_cons.mpr ⟨rfl, List.forall_mem_cons.mpr
    ⟨rfl, List.forall_mem_singleton.mpr rfl⟩⟩) (free _) ?_
  · intro held
    refine List.forall_mem_cons.mpr ⟨?_, List.forall_mem_cons.mpr ⟨?_, List.forall_mem_singleton.mpr ?_⟩⟩
    · exact ⟨[], _, _, rfl, rfl, fun _ => ⟨_, rfl, rfl⟩⟩
    · exact ⟨[_], _, _, rfl, rfl, fun _ => ⟨_, rfl, rfl⟩⟩
    · exact ⟨[_, _], _, _, rfl, rfl, fun _ => ⟨_, rfl, rfl⟩⟩
  · change (["columns", "newcolumns", "aggfunction"].map folded).Nodup
    decide
  · exact fun _ => List.forall_mem_cons.mpr ⟨retained_texts fun _ => free _, List.forall_mem_cons.mpr
      ⟨retained_texts fun _ => free _, List.forall_mem_singleton.mpr (retained_text (free _))⟩⟩

/-- What a field takes in is retained by what is written for it, save for the places after the second in
pairs. -/
theorem Content.retained {content : Content} (allows : content.Allows spare) : content.Retained spare := by
  cases content with
  | text held => exact retained_text allows
  | flag held =>
    exact (faithful_flag allows).retained (fun _ _ => Content.flag.inj) rfl
      fun _ write => (Option.some.inj write).symm
  | whole held =>
    exact (faithful_whole allows).retained (fun _ _ => Content.whole.inj) rfl
      fun _ write => (Option.some.inj write).symm
  | value held =>
    exact (faithful_value allows).retained (fun _ _ => Content.value.inj) rfl fun _ write => write
  | texts held => exact retained_texts allows
  | textPairs held => exact retained_textPairs allows
  | valuePairs held =>
    refine (faithful_pairs rfl faithful_value allows).retained (fun _ _ => Content.valuePairs.inj) rfl ?_
    cases held with
    | none =>
      rintro _ ⟨⟩
      exact .none
    | some pairs =>
      intro json write
      obtain ⟨written, items, rfl⟩ := Option.map_eq_some_iff.mp write
      exact .some (forall₂_of_pairItems? items)
  | sortKeys held =>
    refine (faithful_list fun index => faithful_sortKey fun path => allows _).retained
      (fun _ _ => Content.sortKeys.inj) rfl ?_
    rintro _ ⟨⟩
    exact writesList_listJson (fun _ => ⟨_, rfl, rfl⟩) held
  | aggregations held =>
    refine (faithful_list fun index => faithful_aggregation fun path => allows _).retained
      (fun _ _ => Content.aggregations.inj) rfl ?_
    rintro _ ⟨⟩
    exact writesList_listJson (fun _ => ⟨_, rfl, rfl⟩) held

end Record

end StepQuery
