import StepQuery.Proofs.Codec.Record

/-!
Strict reading, seen as a whole.  Where it succeeds every member belongs to a declared field, whatever
the case of its letters, and fits; and when no two members of an object have the same name in this sense,
every field holds what its one member says, or what it held before if it has none.
-/

namespace StepQuery

namespace Record

section Fields

variable {α : Type} {declared : List (String × α)} {written : String}

theorem isSome_field? {name : String} {field : α} (present : (name, field) ∈ declared)
    (same : folded written = folded name) : (field? declared written).isSome := by
  unfold field?
  split
  next => rfl
  next =>
    rw [Option.isSome_map, List.find?_isSome]
    exact ⟨(name, field), present, sameName_iff.mpr same⟩

end Fields

variable {ρ μ : Type} {fields : ρ → List (String × (μ → Attempt (ρ × Option Cause)))}
  {members : List (String × μ)} {start result : ρ}

/-- A reading in which every member is declared and fits. -/
inductive Takes (fields : ρ → List (String × (μ → Attempt (ρ × Option Cause)))) :
    List (String × μ) → ρ → ρ → Prop
  | nil {record : ρ} : Takes fields [] record record
  | cons {key : String} {member : μ} {rest : List (String × μ)} {record next result : ρ}
      {store : μ → Attempt (ρ × Option Cause)} (declared : field? (fields record) key = some store)
      (stored : store member = .ok (next, none)) (others : Takes fields rest next result) :
      Takes fields ((key, member) :: rest) record result

/-- A misfit is not forgotten. -/
theorem read_misfit_ne_ok {cause : Cause} : read fields members start (some cause) ≠ .ok result := by
  induction members generalizing start cause with
  | nil => exact Attempt.fail_ne_ok
  | cons member rest inductionHypothesis =>
    obtain ⟨key, member⟩ := member
    rw [read]
    split
    next => exact inductionHypothesis
    next store _ =>
      intro returned
      obtain ⟨⟨next, found⟩, _, returned⟩ := Attempt.bind_eq_ok.mp returned
      exact inductionHypothesis returned

theorem read_eq_ok_iff : read fields members start none = .ok result ↔ Takes fields members start result := by
  induction members generalizing start with
  | nil =>
    constructor
    · intro returned
      cases returned
      exact .nil
    · intro takes
      cases takes
      rfl
  | cons member rest inductionHypothesis =>
    obtain ⟨key, member⟩ := member
    rw [read]
    constructor
    · intro returned
      split at returned
      next => exact absurd returned read_misfit_ne_ok
      next store declared =>
        obtain ⟨⟨next, found⟩, stored, returned⟩ := Attempt.bind_eq_ok.mp returned
        cases found with
        | none => exact .cons declared stored (inductionHypothesis.mp returned)
        | some cause => exact absurd returned read_misfit_ne_ok
    · intro takes
      cases takes with
      | cons declared stored others =>
        rw [declared]
        exact Attempt.bind_eq_ok.mpr ⟨_, stored, inductionHypothesis.mpr others⟩

/-- All members that are taken are declared. -/
theorem Takes.declared {names : List String} (known : ∀ record, ∀ field ∈ fields record, field.1 ∈ names)
    (takes : Takes fields members start result) :
    ∀ member ∈ members, ∃ name ∈ names, folded member.1 = folded name := by
  induction takes with
  | nil => exact nofun
  | cons declared _ _ inductionHypothesis =>
    obtain ⟨name, within, same⟩ := exists_of_field?_eq_some declared
    exact List.forall_mem_cons.mpr ⟨⟨name, known _ _ within, same⟩, inductionHypothesis⟩

/-- Members that always fit are taken. -/
theorem exists_takes (total : ∀ member ∈ members, ∀ record, ∃ store next,
      field? (fields record) member.1 = some store ∧ store member.2 = .ok (next, none)) (start : ρ) :
    ∃ result, Takes fields members start result := by
  induction members generalizing start with
  | nil => exact ⟨start, .nil⟩
  | cons member rest inductionHypothesis =>
    obtain ⟨first, others⟩ := List.forall_mem_cons.mp total
    obtain ⟨store, next, declared, stored⟩ := first start
    obtain ⟨result, takes⟩ := inductionHypothesis others next
    exact ⟨result, .cons declared stored takes⟩

/-- A reading in which no member refuses outright fails with a cause of no kind. -/
theorem read_eq_error
    (stores : ∀ record, ∀ field ∈ fields record, ∀ member ∈ members,
      ∃ next misfit, field.2 member.2 = .ok (next, misfit) ∧ ∀ cause ∈ misfit, cause.kind? = none)
    {misfit : Option Cause} (earlier : ∀ cause ∈ misfit, cause.kind? = none) {failure : Failure}
    (failed : read fields members start misfit = .error failure) :
    ∃ cause, failure = .refusal [] cause ∧ cause.kind? = none := by
  have first {left right : Option Cause} (left' : ∀ cause ∈ left, cause.kind? = none)
      (right' : ∀ cause ∈ right, cause.kind? = none) :
      ∀ cause ∈ (left <|> right), cause.kind? = none := by
    cases left with
    | none => exact right'
    | some => exact left'
  induction members generalizing start misfit with
  | nil =>
    cases misfit with
    | none => cases failed
    | some cause =>
      cases failed
      exact ⟨cause, rfl, earlier cause rfl⟩
  | cons member rest inductionHypothesis =>
    obtain ⟨key, member⟩ := member
    have others : ∀ record, ∀ field ∈ fields record, ∀ member ∈ rest, ∃ next misfit,
        field.2 member.2 = .ok (next, misfit) ∧ ∀ cause ∈ misfit, cause.kind? = none :=
      fun record field declared member within =>
        stores record field declared member (List.mem_cons_of_mem _ within)
    rw [read] at failed
    split at failed
    next =>
      refine inductionHypothesis others (first earlier ?_) failed
      rintro _ ⟨⟩
      rfl
    next store declared =>
      obtain ⟨name, within, _⟩ := exists_of_field?_eq_some declared
      obtain ⟨next, found, stored, plain⟩ := stores start _ within (key, member) List.mem_cons_self
      rw [show store member = _ from stored, Attempt.ok_bind] at failed
      exact inductionHypothesis others (first earlier plain) failed

/-- Such a reading, seen as one of a kind, is refused as that kind. -/
theorem refusesAs_read {kind : Kind}
    (stores : ∀ record, ∀ field ∈ fields record, ∀ member ∈ members,
      ∃ next misfit, field.2 member.2 = .ok (next, misfit) ∧ ∀ cause ∈ misfit, cause.kind? = none) :
    Attempt.RefusesAs kind (Attempt.inside (.seenAs kind) (read fields members start none)) := by
  intro failure failed
  cases attempted : read fields members start none with
  | ok record => rw [attempted] at failed; cases failed
  | error inner =>
    rw [attempted] at failed
    cases failed
    have unmarked : ∀ cause ∈ (none : Option Cause), cause.kind? = none := nofun
    obtain ⟨cause, rfl, plain⟩ := read_eq_error stores unmarked attempted
    simp only [Failure.within, Failure.kinds, plain]
    cases kind <;> decide

section ValueOf

variable {members : List (String × Json)} {name : String}

/-- What the member of a name says, whatever the case of its letters; a member that is missing says
null. -/
def valueOf (members : List (String × Json)) (name : String) : Json :=
  ((members.find? fun member => sameName member.1 name).map (·.2)).getD .null

theorem valueOf_eq_of_mem (unlike : (members.map fun member => folded member.1).Nodup)
    {member : String × Json} (within : member ∈ members) (same : folded member.1 = folded name) :
    valueOf members name = member.2 := by
  have located : members.find? (fun member => sameName member.1 name) = some member := by
    obtain ⟨found, located⟩ := Option.isSome_iff_exists.mp
      (List.find?_isSome (p := fun member => sameName member.1 name) |>.mpr
        ⟨member, within, sameName_iff.mpr same⟩)
    have hit : sameName found.1 name = true := by simpa using List.find?_some located
    have equal := (sameName_iff.mp hit).trans same.symm
    rw [located, List.inj_on_of_nodup_map unlike (List.mem_of_find?_eq_some located) within equal]
  rw [valueOf, located]
  rfl

theorem valueOf_eq_null (absent : ∀ member ∈ members, folded member.1 ≠ folded name) :
    valueOf members name = .null := by
  have missing : members.find? (fun member => sameName member.1 name) = none :=
    List.find?_eq_none.mpr fun member within => mt sameName_iff.mp (absent member within)
  rw [valueOf, missing]
  rfl

theorem valueOf_cases (unlike : (members.map fun member => folded member.1).Nodup) (name : String) :
    (∃ member ∈ members, folded member.1 = folded name ∧ valueOf members name = member.2) ∨
      (∀ member ∈ members, folded member.1 ≠ folded name) ∧ valueOf members name = .null := by
  by_cases present : ∃ member ∈ members, folded member.1 = folded name
  · obtain ⟨member, within, same⟩ := present
    exact .inl ⟨member, within, same, valueOf_eq_of_mem unlike within same⟩
  · have absent : ∀ member ∈ members, folded member.1 ≠ folded name :=
      fun member within same => present ⟨member, within, same⟩
    exact .inr ⟨absent, valueOf_eq_null absent⟩

/-- What holds of null and of all members holds of what is found under a name. -/
theorem valueOf_spec {Holds : Json → Prop} (null : Holds .null)
    (each : ∀ member ∈ members, Holds member.2) (name : String) : Holds (valueOf members name) := by
  unfold valueOf
  cases located : members.find? fun member => sameName member.1 name with
  | none => exact null
  | some member => exact each member (List.mem_of_find?_eq_some located)

theorem valueOf_cons (member : String × Json) (rest : List (String × Json)) (name : String) :
    valueOf (member :: rest) name =
      if folded member.1 = folded name then member.2 else valueOf rest name := by
  unfold valueOf
  by_cases same : folded member.1 = folded name
  · rw [if_pos same, List.find?_cons, sameName_iff.mpr same]
    rfl
  · rw [if_neg same, List.find?_cons, Bool.eq_false_iff.mpr (mt sameName_iff.mp same)]

theorem valueOf_congr {members : List (String × Json)} {name other : String}
    (same : folded name = folded other) : valueOf members name = valueOf members other := by
  have equal : (fun member : String × Json => sameName member.1 name) =
      fun member => sameName member.1 other :=
    funext fun member => congrArg (folded member.1 == ·) same
  rw [valueOf, equal, valueOf]

end ValueOf

section Gathering

variable {γ : Type} {names : ρ → List String} {view : ρ → String → γ}
  {fits : String → γ → μ → γ → Prop}

/-- What a field makes of a member fits it, and nothing else changes. -/
def Stores (names : ρ → List String) (view : ρ → String → γ) (fits : String → γ → μ → γ → Prop)
    (record : ρ) (field : String × (μ → Attempt (ρ × Option Cause))) : Prop :=
  field.1 ∈ names record ∧ ∀ member next, field.2 member = .ok (next, none) →
    names next = names record ∧ fits field.1 (view record field.1) member (view next field.1) ∧
      ∀ other ∈ names record, other ≠ field.1 → view next other = view record other

/-- What a record holds after a reading: every member belongs to a field, which holds what fits it, and
the fields without members hold what they held. -/
structure Gathered (names : ρ → List String) (view : ρ → String → γ) (fits : String → γ → μ → γ → Prop)
    (members : List (String × μ)) (start result : ρ) : Prop where
  named : names result = names start
  declared : ∀ member ∈ members, ∃ name ∈ names start, folded member.1 = folded name
  taken : ∀ member ∈ members, ∀ name ∈ names start, folded member.1 = folded name →
    fits name (view start name) member.2 (view result name)
  left : ∀ name ∈ names start, (∀ member ∈ members, folded member.1 ≠ folded name) →
    view result name = view start name

/-- A reading of members with different names gathers them. -/
theorem Takes.gathered (apart : ((names start).map folded).Nodup)
    (stores : ∀ record, ∀ field ∈ fields record, Stores names view fits record field)
    (unlike : (members.map fun member => folded member.1).Nodup)
    (takes : Takes fields members start result) :
    Gathered names view fits members start result := by
  induction takes with
  | nil => exact ⟨rfl, nofun, nofun, fun _ _ _ => rfl⟩
  | @cons key member rest record next result store declared stored _ inductionHypothesis =>
    obtain ⟨alone, unlike⟩ := List.nodup_cons.mp unlike
    obtain ⟨name, within, same⟩ := exists_of_field?_eq_some declared
    obtain ⟨known, spec⟩ := stores record _ within
    obtain ⟨kept, fit, others⟩ := spec member next stored
    obtain ⟨named, declares, taken, left⟩ := inductionHypothesis (kept ▸ apart) unlike
    rw [kept] at named declares taken left
    have only {other : String} (declared : other ∈ names record) (equal : folded key = folded other) :
        other = name :=
      List.inj_on_of_nodup_map apart declared known (equal.symm.trans same)
    have later : ∀ member ∈ rest, folded member.1 ≠ folded name := fun member within equal =>
      alone (List.mem_map.mpr ⟨member, within, equal.trans same.symm⟩)
    refine ⟨named, List.forall_mem_cons.mpr ⟨⟨name, known, same⟩, declares⟩,
      List.forall_mem_cons.mpr ⟨?_, ?_⟩, ?_⟩
    · intro other declared equal
      obtain rfl := only declared equal
      rw [left other known later]
      exact fit
    · intro member present other declared equal
      have different : other ≠ name := by
        rintro rfl
        exact later member present equal
      rw [← others other declared different]
      exact taken member present other declared equal
    · intro other declared absent
      obtain ⟨first, absent⟩ := List.forall_mem_cons.mp absent
      have different : other ≠ name := by
        rintro rfl
        exact first same
      rw [left other declared absent, others other declared different]

/-- What a record holds is what fits the members of its names, if null fits where there is none. -/
theorem Gathered.fits_valueOf {document : List (String × Json)} (lift : Json → μ)
    (gathered : Gathered names view fits (document.map fun member => (member.1, lift member.2)) start
      result)
    (unlike : (document.map fun member => folded member.1).Nodup) {name : String}
    (known : name ∈ names start) (silent : fits name (view start name) (lift .null) (view start name)) :
    fits name (view start name) (lift (valueOf document name)) (view result name) := by
  obtain ⟨member, within, same, value⟩ | ⟨absent, missing⟩ := valueOf_cases unlike name
  · rw [value]
    exact gathered.taken _ (List.mem_map_of_mem within) name known same
  · rw [missing, gathered.left name known (List.forall_mem_map.mpr absent)]
    exact silent

end Gathering

end Record

/-- Documents whose objects have no two members of the same name, whatever the case of its letters. -/
inductive Json.Distinct : Json → Prop
  | null : Distinct .null
  | bool (value : Bool) : Distinct (.bool value)
  | number (literal : String) : Distinct (.number literal)
  | string (value : String) : Distinct (.string value)
  | array {items : List Json} (each : ∀ item ∈ items, Distinct item) : Distinct (.array items)
  | object {members : List (String × Json)}
      (unlike : (members.map fun member => Record.folded member.1).Nodup)
      (each : ∀ member ∈ members, Distinct member.2) : Distinct (.object members)

namespace Json.Distinct

variable {items : List Json} {members : List (String × Json)}

theorem item (distinct : Distinct (.array items)) : ∀ item ∈ items, Distinct item := by
  cases distinct
  assumption

theorem member (distinct : Distinct (.object members)) : ∀ member ∈ members, Distinct member.2 := by
  cases distinct
  assumption

theorem unlike (distinct : Distinct (.object members)) :
    (members.map fun member => Record.folded member.1).Nodup := by
  cases distinct
  assumption

theorem empty : Distinct (.object []) := .object List.nodup_nil nofun

end Json.Distinct

end StepQuery
