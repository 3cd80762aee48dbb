import StepQuery.Pipeline.Read
import StepQuery.Pipeline.Write
import StepQuery.Proofs.Attempt
import StepQuery.Proofs.Codec.Value

/-!
Reading records, one member after the other.  What every declared field keeps, the whole record
keeps; and each kind of field takes back what is written for it.
-/

namespace StepQuery

namespace Record

variable {ρ μ : Type} {fields : ρ → List (String × (μ → Attempt (ρ × Option Cause)))}

/-- A name without the case of its letters.  A member belongs to the field of the same folded name. -/
def folded (name : String) : List Char := name.toList.map fold

theorem sameName_iff {written declared : String} :
    sameName written declared = true ↔ folded written = folded declared := beq_iff_eq

theorem exists_of_field?_eq_some {α : Type} {declared : List (String × α)} {written : String}
    {field : α} (found : field? declared written = some field) :
    ∃ name, (name, field) ∈ declared ∧ folded written = folded name := by
  unfold field? at found
  split at found
  next entry located =>
    cases found
    have same := List.find?_some located
    exact ⟨entry.1, List.mem_of_find?_eq_some located, congrArg folded (eq_of_beq same).symm⟩
  next =>
    obtain ⟨entry, located, rfl⟩ := Option.map_eq_some_iff.mp found
    have same := List.find?_some located
    exact ⟨entry.1, List.mem_of_find?_eq_some located, sameName_iff.mp same⟩

/-- What the declared fields keep, whichever members they take in, the record keeps. -/
theorem read_keeps (Holds : ρ → Prop) {members : List (String × μ)}
    (keeps : ∀ record, Holds record → ∀ field ∈ fields record, ∀ member ∈ members,
      ∀ next misfit, field.2 member.2 = .ok (next, misfit) → Holds next)
    {record result : ρ} {misfit : Option Cause} (start : Holds record)
    (returned : read fields members record misfit = .ok result) : Holds result := by
  induction members generalizing record misfit with
  | nil =>
    cases misfit with
    | none =>
      cases returned
      exact start
    | some cause => exact absurd returned Attempt.fail_ne_ok
  | cons member rest inductionHypothesis =>
    obtain ⟨key, value⟩ := member
    have restKeeps : ∀ record, Holds record → ∀ field ∈ fields record, ∀ member ∈ rest,
        ∀ next misfit, field.2 member.2 = .ok (next, misfit) → Holds next :=
      fun record holds field declared member within =>
        keeps record holds field declared member (List.mem_cons_of_mem _ within)
    unfold read at returned
    split at returned
    next => exact inductionHypothesis restKeeps start returned
    next store found =>
      obtain ⟨⟨stored, missed⟩, taken, returned⟩ := Attempt.bind_eq_ok.mp returned
      obtain ⟨name, declared, _⟩ := exists_of_field?_eq_some found
      have holds : Holds stored :=
        keeps record start _ declared (key, value) List.mem_cons_self stored missed taken
      exact inductionHypothesis restKeeps holds returned

/-! ### Fields take back what is written for them -/

/-- A way of writing that a field undoes, whatever it held before. -/
def Undoes {α : Type} (store : Store α) (write : α → Json) : Prop :=
  ∀ value held, store (write value) held = (value, none)

theorem undoes_text : Undoes text Json.string := fun _ _ => rfl

theorem items_map {α : Type} {store : Store α} {write : α → Json} (undoes : Undoes store write)
    (blank : α) (values held : List α) :
    items blank store (values.map write) held = (values, none) := by
  induction values generalizing held with
  | nil => rfl
  | cons value rest inductionHypothesis =>
    simp [items, undoes value, inductionHypothesis]

theorem undoes_list {α : Type} {store : Store α} {write : α → Json} (undoes : Undoes store write)
    (blank : α) : Undoes (list blank store) (Operation.listJson write) := by
  intro value held
  cases value with
  | none => rfl
  | some values => simp [Operation.listJson, list, items_map undoes]

@[simp]
theorem text_string (value held : String) : text (.string value) held = (value, none) := rfl

@[simp]
theorem texts_toJson (columns held : ColumnList) : texts columns.toJson held = (columns, none) := by
  rw [← undoes_list undoes_text "" columns held]
  cases columns <;> rfl

@[simp]
theorem textPairs_toJson (pairs held : ColumnPairs) :
    textPairs pairs.toJson held = (pairs, none) := by
  have undoes : Undoes (pair "" text) fun pair => Json.texts [pair.1, pair.2] := fun _ _ => rfl
  rw [← undoes_list undoes ("", "") pairs held]
  cases pairs <;> rfl

@[simp]
theorem sortKeys_listJson (keys held : Option (List SortKey)) :
    list ⟨"", ""⟩ sortKey (Operation.listJson Operation.sortKeyJson keys) held = (keys, none) :=
  undoes_list (fun _ _ => rfl) _ keys held

@[simp]
theorem aggregations_listJson (aggregations held : Option (List Aggregation)) :
    list ⟨none, none, ""⟩ aggregation (Operation.listJson Operation.aggregationJson aggregations)
      held = (aggregations, none) := by
  refine undoes_list ?_ _ aggregations held
  intro value held
  simp [aggregation, Operation.aggregationJson, nested, nestedMembers, field?, slot]

theorem value_of_writes {value : Value} {json : Json} (writes : value.Writes json)
    (held : Value) : Record.value json held = (value, none) := by
  simp [Record.value, writes.2.2]

/-- A whole number of 64 bits. -/
abbrev Bounded (n : Int) : Prop := -(twoTo 63 : Int) ≤ n ∧ n < twoTo 63

theorem whole_integerText {n : Int} (bounded : Bounded n) (held : Int) :
    whole (.number (Decimal.integerText n)) held = (n, none) := by
  have bounds : (-(twoTo 63 : Int) ≤ n && n < twoTo 63) = true := by
    rw [Bool.and_eq_true, decide_eq_true_eq, decide_eq_true_eq]
    exact bounded
  simp only [whole, Decimal.integer?_integerText, bounds, if_true]


end Record

end StepQuery
