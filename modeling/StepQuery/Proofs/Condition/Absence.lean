import StepQuery.Proofs.Condition.Agreement

/-!
Where the two languages come apart.  A match document takes a missing field for null and orders only
values of one type; an expression tells a missing field from null and orders everything, what is missing
first of all and null next.  So there are two ways for a comparison to differ: it asks for null where
nothing is held, or it orders what is held against a value of another type and the types alone make it
true.  A condition none of whose comparisons differs has one truth.
-/

namespace StepQuery

namespace Comparison

/-- The comparison is with null, by an operator that equality decides. -/
def asksForNull (comparison : Comparison) : Bool :=
  comparison.isNullCheck || (["eq", "ne", "in", "nin"].contains comparison.operator &&
    comparison.operands.any fun operand => operand.bracket == .null)

/-- The type of what a column holds. -/
def heldBracket (document : FlatDocument) (comparison : Comparison) : Option Value.Bracket :=
  (document.at? comparison.column).map Value.bracket

/-- The two languages differ on a comparison. -/
inductive Differs (document : FlatDocument) (comparison : Comparison) : Prop where
  | missing : document.at? comparison.column = none → comparison.asksForNull →
      Differs document comparison
  | foreign {test : Ordering → Bool} : orderTest? comparison.operator = some test →
      comparison.operator ∉ ["eq", "ne"] →
      comparison.heldBracket document ≠ some comparison.value.bracket →
      test (compare (comparison.heldBracket document) (some comparison.value.bracket)) →
      Differs document comparison

end Comparison

namespace Database

variable {database : Database}

theorem equals_none (operand : Value) :
    database.equals none operand = (operand.bracket == .null) := by
  have total := database.total
  cases operand with
  | null =>
    have reflexive : database.order .null .null = .eq := Std.ReflCmp.compare_self
    simp [equals, compare, Value.bracket, reflexive]
  | _ => rfl

/-- Between values of two types only the types count. -/
theorem compare_foreign {held : Option Value} {value : Value}
    (foreign : held.map Value.bracket ≠ some value.bracket) :
    database.compare held (some value) =
      Ord.compare (held.map Value.bracket) (some value.bracket) := by
  cases held with
  | none => rfl
  | some found => exact if_neg fun same => foreign (congrArg some same)

theorem ordered_foreign {held : Option Value} {value : Value} (test : Ordering → Bool)
    (foreign : held.map Value.bracket ≠ some value.bracket) :
    database.ordered held value test = false := by
  cases held with
  | none => rfl
  | some found =>
    have other : found.bracket ≠ value.bracket := fun same => foreign (congrArg some same)
    simp [ordered, other]

theorem ordered_same {held : Option Value} {value : Value} (test : Ordering → Bool)
    (same : held.map Value.bracket = some value.bracket) :
    database.ordered held value test = test (database.compare held (some value)) := by
  obtain ⟨found, rfl, typed⟩ := Option.map_eq_some_iff.mp same
  simp [ordered, compare, typed]

end Database

namespace Comparison

variable {database : Database} {document : FlatDocument} {column operator : String} {value : Value}

theorem truths_eq_iff_of_inequality {test : Ordering → Bool} (asked : orderTest? operator = some test)
    (ordering : operator ∉ ["eq", "ne"])
    (asksNothing : asksForNull ⟨column, operator, value⟩ = false)
    (matched : matchTruth database document ⟨column, operator, value⟩ =
      database.ordered (document.at? column) value test)
    (expressed : expressionTruth database document ⟨column, operator, value⟩ =
      test (database.compare (document.at? column) (some value))) :
    matchTruth database document ⟨column, operator, value⟩ =
        expressionTruth database document ⟨column, operator, value⟩ ↔
      ¬Differs document ⟨column, operator, value⟩ := by
  rw [matched, expressed]
  by_cases same : (document.at? column).map Value.bracket = some value.bracket
  · rw [Database.ordered_same test same, eq_self, true_iff]
    rintro (⟨_, asks⟩ | ⟨_, _, foreign, _⟩)
    · exact absurd asks (by simp [asksNothing])
    · exact foreign same
  · have differs_iff : Differs document ⟨column, operator, value⟩ ↔
        test (compare ((document.at? column).map Value.bracket) (some value.bracket)) := by
      constructor
      · rintro (⟨_, asks⟩ | ⟨askedToo, _, _, beyond⟩)
        · exact absurd asks (by simp [asksNothing])
        · rw [asked] at askedToo
          cases askedToo
          exact beyond
      · intro beyond
        exact Differs.foreign asked ordering same beyond
    rw [Database.ordered_foreign test same, Database.compare_foreign same, differs_iff, eq_comm,
      Bool.not_eq_true]

theorem truths_eq_iff_of_equality (unordered : operator ∈ ["eq", "ne"] ∨ orderTest? operator = none)
    (held : ∀ found, document.at? column = some found →
      matchTruth database document ⟨column, operator, value⟩ =
        expressionTruth database document ⟨column, operator, value⟩)
    (missing : document.at? column = none →
      (matchTruth database document ⟨column, operator, value⟩ =
          expressionTruth database document ⟨column, operator, value⟩ ↔
        ¬asksForNull ⟨column, operator, value⟩)) :
    matchTruth database document ⟨column, operator, value⟩ =
        expressionTruth database document ⟨column, operator, value⟩ ↔
      ¬Differs document ⟨column, operator, value⟩ := by
  have differs_iff : Differs document ⟨column, operator, value⟩ ↔
      document.at? column = none ∧ asksForNull ⟨column, operator, value⟩ := by
    refine ⟨?_, fun ⟨nothing, asks⟩ => .missing nothing asks⟩
    rintro (⟨nothing, asks⟩ | ⟨asked, ordering, _⟩)
    · exact ⟨nothing, asks⟩
    · rcases unordered with equality | unordered
      · exact absurd equality ordering
      · rw [unordered] at asked
        cases asked
  rw [differs_iff]
  cases found : document.at? column with
  | none => rw [missing found, eq_self, true_and]
  | some value => exact iff_of_true (held value found) nofun

theorem isNe_eq_not_isEq : (order : Ordering) → order.isNe = !order.isEq := by decide

theorem truths_eq_iff_of_equating (equating : operator = "eq" ∨ operator = "ne")
    (compared : operands ⟨column, operator, value⟩ = [value]) :
    matchTruth database document ⟨column, operator, value⟩ =
        expressionTruth database document ⟨column, operator, value⟩ ↔
      ¬Differs document ⟨column, operator, value⟩ := by
  have nothing : ∀ operand, (database.compare none (some operand)).isEq = false := fun _ => rfl
  rcases equating with rfl | rfl
  all_goals
    refine truths_eq_iff_of_equality (.inl (by decide)) ?_ ?_
    · intro held found
      simp [matchTruth, expressionTruth, orderTest?, found, Database.equals, isNe_eq_not_isEq]
    · intro missing
      simp [matchTruth, expressionTruth, orderTest?, missing, Database.equals_none, nothing,
        isNe_eq_not_isEq, asksForNull, isNullCheck, compared]

theorem truths_eq_iff_of_list {items : List Value} (listed : operator = "in" ∨ operator = "nin") :
    matchTruth database document ⟨column, operator, .list items⟩ =
        expressionTruth database document ⟨column, operator, .list items⟩ ↔
      ¬Differs document ⟨column, operator, .list items⟩ := by
  have noMember : (items.any fun item => (database.compare none (some item)).isEq) = false :=
    List.any_eq_false.mpr fun _ _ => Bool.false_ne_true
  rcases listed with rfl | rfl
  all_goals
    refine truths_eq_iff_of_equality (.inr rfl) ?_ ?_
    · intro held found
      simp [matchTruth, expressionTruth, found, Database.equals]
    · intro missing
      simp [matchTruth, expressionTruth, missing, Database.equals_none, noMember, asksForNull,
        isNullCheck, operands]

theorem truths_eq_iff_of_nullCheck (checks : operator = "isnull" ∨ operator = "notnull") :
    matchTruth database document ⟨column, operator, value⟩ =
        expressionTruth database document ⟨column, operator, value⟩ ↔
      ¬Differs document ⟨column, operator, value⟩ := by
  have nothing : (database.compare none (some .null)).isEq = false := rfl
  rcases checks with rfl | rfl
  all_goals
    refine truths_eq_iff_of_equality (.inr rfl) ?_ ?_
    · intro held found
      simp [matchTruth, expressionTruth, found, Database.equals, isNe_eq_not_isEq]
    · intro missing
      simp [matchTruth, expressionTruth, missing, Database.equals_none, nothing, isNe_eq_not_isEq,
        asksForNull, isNullCheck, Value.bracket]

/-- A regular comparison has one truth in the two languages if and only if they do not differ on it. -/
theorem Regular.truths_eq_iff {comparison : Comparison} (regular : comparison.Regular) :
    comparison.matchTruth database document = comparison.expressionTruth database document ↔
      ¬comparison.Differs document := by
  obtain ⟨column, operator, value⟩ := comparison
  obtain ⟨test, asked, _, compared⟩ | ⟨items, rfl, listed⟩ | ⟨pattern, _⟩ | checks := regular.cases
  · unfold orderTest? at asked
    split at asked <;> cases asked
    · exact truths_eq_iff_of_equating (.inl rfl) compared
    · exact truths_eq_iff_of_equating (.inr rfl) compared
    all_goals exact truths_eq_iff_of_inequality rfl (by decide) rfl rfl rfl
  · exact truths_eq_iff_of_list listed
  · rcases pattern with rfl | rfl
    all_goals
      exact truths_eq_iff_of_equality (.inr rfl) (fun _ _ => rfl) fun _ =>
        iff_of_true rfl Bool.false_ne_true
  · exact truths_eq_iff_of_nullCheck checks

end Comparison

namespace Condition

section Sample

/-- A document with a null and without any city. -/
def visitor : FlatDocument where
  fields := [("age", .null), ("name", .text "Ana")]
  flat := by decide

def uncertain : Condition :=
  .any [.all [.simple ⟨"age", "ge", .int 18⟩, .simple ⟨"city", "eq", .text "Paris"⟩],
    .simple ⟨"city", "nin", .list [.text "Rome", .text "Lyon"]⟩, .simple ⟨"age", "isnull", .null⟩]

end Sample

end Condition

end StepQuery
