import Mathlib.Data.List.Forall2
import StepQuery.Proofs.Condition.Editing

/-!
Conditions with the values of typed columns cast.  Casting looks at the comparisons alone, each on its
own: it replaces the texts that stand for a value of the type of their column, in a list one by one, and
nothing else.  What a text stands for is never cast again, so that casting twice is casting once, and as
no condition becomes simple or ceases to be, it makes no difference whether a condition is cast before
it is edited or after.
-/

namespace StepQuery

/-- What casting makes of a single value: of a text that the type accepts what it stands for, and of
everything else nothing new. -/
inductive Value.CastsTo (columnType : ColumnType) : Value → Value → Prop
  | accepted {text : String} {value : Value} (stands : Casting.cast text columnType = .ok value) :
      CastsTo columnType (.text text) value
  | refused {text : String} {failure : Failure}
      (stands : Casting.cast text columnType = .error failure) :
      CastsTo columnType (.text text) (.text text)
  | other {value : Value} (other : ∀ text, value ≠ .text text) : CastsTo columnType value value

/-- What casting makes of a comparison: the value alone may become another, where the column has a
type. -/
inductive Comparison.CastsTo (types : Fields ColumnType) : Comparison → Comparison → Prop
  | untyped {comparison : Comparison} (untyped : Fields.get? types comparison.column = none) :
      CastsTo types comparison comparison
  | list {column operator : String} {columnType : ColumnType} {items others : List Value}
      (typed : Fields.get? types column = some columnType)
      (each : List.Forall₂ (Value.CastsTo columnType) items others) :
      CastsTo types ⟨column, operator, .list items⟩ ⟨column, operator, .list others⟩
  | single {column operator : String} {columnType : ColumnType} {value other : Value}
      (typed : Fields.get? types column = some columnType) (single : ∀ items, value ≠ .list items)
      (casts : Value.CastsTo columnType value other) :
      CastsTo types ⟨column, operator, value⟩ ⟨column, operator, other⟩

namespace Condition

/-- Two conditions combine in the same way, in the same order, comparisons that are related. -/
inductive Leafwise (related : Comparison → Comparison → Prop) : Condition → Condition → Prop
  | absent : Leafwise related .absent .absent
  | simple {comparison other : Comparison} (relates : related comparison other) :
      Leafwise related (.simple comparison) (.simple other)
  | all {children others : List Condition} (each : List.Forall₂ (Leafwise related) children others) :
      Leafwise related (.all children) (.all others)
  | any {children others : List Condition} (each : List.Forall₂ (Leafwise related) children others) :
      Leafwise related (.any children) (.any others)

section Values

variable (columnType : ColumnType)

theorem castsTo_castText (value : Value) : value.CastsTo columnType (castText columnType value) := by
  unfold castText
  split
  · split
    · next stands => exact .accepted stands
    · next stands => exact .refused stands
  · next other => exact .other other

variable {columnType}

/-- What a text stands for is not a list, and is not cast again. -/
theorem castText_of_cast {text : String} {value : Value}
    (stands : Casting.cast text columnType = .ok value) :
    castText columnType value = value ∧ ∀ items, value ≠ .list items := by
  unfold Casting.cast at stands
  split at stands
  case h_1 =>
    cases stands
    exact ⟨rfl, nofun⟩
  case h_2 =>
    split at stands
    · cases stands
    · split at stands <;> cases stands
      exact ⟨rfl, nofun⟩
  all_goals
    split at stands <;> cases stands
    exact ⟨rfl, nofun⟩

variable {value other : Value}

theorem castText_of_castsTo (casts : value.CastsTo columnType other) :
    castText columnType other = other := by
  cases casts with
  | accepted stands => exact (castText_of_cast stands).1
  | refused stands => rw [castText, stands]
  | other other =>
    rw [castText]
    exact other

theorem ne_list_of_castsTo (casts : value.CastsTo columnType other)
    (single : ∀ items, value ≠ .list items) (items : List Value) : other ≠ .list items := by
  cases casts with
  | accepted stands => exact (castText_of_cast stands).2 items
  | refused => exact nofun
  | other => exact single items

theorem eq_list_or_single (value : Value) :
    (∃ items, value = .list items) ∨ ∀ items, value ≠ .list items := by
  cases value with
  | list items => exact .inl ⟨items, rfl⟩
  | _ => exact .inr nofun

theorem castValue_single (single : ∀ items, value ≠ .list items) :
    castValue columnType value = castText columnType value := by
  rw [castValue]
  exact single

theorem castValue_castValue (value : Value) :
    castValue columnType (castValue columnType value) = castValue columnType value := by
  obtain ⟨items, rfl⟩ | single := eq_list_or_single value
  · have again : ∀ item, castText columnType (castText columnType item) = castText columnType item :=
      fun item => castText_of_castsTo (castsTo_castText columnType item)
    simp [castValue, again]
  · -- A single value becomes no list, so that it is cast as a single value again.
    have casts := castsTo_castText columnType value
    rw [castValue_single single, castValue_single (ne_list_of_castsTo casts single),
      castText_of_castsTo casts]

end Values

section Conditions

variable (types : Fields ColumnType)

theorem castsTo_castComparison (comparison : Comparison) :
    comparison.CastsTo types (castComparison types comparison) := by
  obtain ⟨column, operator, value⟩ := comparison
  unfold castComparison
  split
  · next untyped => exact .untyped untyped
  · next columnType typed =>
    obtain ⟨items, rfl⟩ | single := eq_list_or_single value
    · refine .list typed ?_
      rw [List.forall₂_map_right_iff, List.forall₂_same]
      exact fun item _ => castsTo_castText columnType item
    · rw [castValue_single single]
      exact .single typed single (castsTo_castText columnType value)

theorem castComparison_castComparison (comparison : Comparison) :
    castComparison types (castComparison types comparison) = castComparison types comparison := by
  obtain ⟨column, operator, value⟩ := comparison
  cases typed : Fields.get? types column with
  | none => simp [castComparison, typed]
  | some columnType => simp [castComparison, typed, castValue_castValue]

theorem castAll_eq (children : List Condition) :
    castAll types children = children.map (castValues types) := by
  induction children with
  | nil => rw [castAll, List.map_nil]
  | cons child rest inductionHypothesis => rw [castAll, List.map_cons, inductionHypothesis]

mutual

theorem leafwise_castValues : (condition : Condition) →
    condition.Leafwise (Comparison.CastsTo types) (castValues types condition)
  | .absent => by
    rw [castValues]
    exact .absent
  | .simple comparison => by
    rw [castValues]
    exact .simple (castsTo_castComparison types comparison)
  | .all children => by
    rw [castValues]
    exact .all (leafwise_castAll children)
  | .any children => by
    rw [castValues]
    exact .any (leafwise_castAll children)

theorem leafwise_castAll : (children : List Condition) →
    List.Forall₂ (Leafwise (Comparison.CastsTo types)) children (castAll types children)
  | [] => by
    rw [castAll]
    exact .nil
  | child :: rest => by
    rw [castAll]
    exact .cons (leafwise_castValues child) (leafwise_castAll rest)

end

mutual

theorem castValues_castValues : (condition : Condition) →
    castValues types (castValues types condition) = castValues types condition
  | .absent => by rw [castValues, castValues]
  | .simple comparison => by rw [castValues, castValues, castComparison_castComparison]
  | .all children => by rw [castValues, castValues, castAll_castAll children]
  | .any children => by rw [castValues, castValues, castAll_castAll children]

theorem castAll_castAll : (children : List Condition) →
    castAll types (castAll types children) = castAll types children
  | [] => by rw [castAll, castAll]
  | child :: rest => by
    rw [castAll, castAll, castValues_castValues child, castAll_castAll rest]

end

@[simp]
theorem isSimple_castValues (condition : Condition) :
    (castValues types condition).isSimple = condition.isSimple := by
  cases condition <;> simp [castValues, isSimple]

/-- Casting moves no child and makes none simple that was not. -/
theorem simpleFirst_castAll (children : List Condition) :
    simpleFirst (castAll types children) = castAll types (simpleFirst children) := by
  simp [simpleFirst, castAll_eq, List.filter_map, Function.comp_def]

mutual

theorem arranged_castValues : (condition : Condition) →
    (castValues types condition).arranged = castValues types condition.arranged
  | .absent => by rw [castValues, arranged, castValues]
  | .simple comparison => by rw [castValues, arranged, arranged, castValues]
  | .all children => by
    rw [castValues, arranged, arrangedAll_castAll children, simpleFirst_castAll, arranged, castValues]
  | .any children => by
    rw [castValues, arranged, arrangedAll_castAll children, simpleFirst_castAll, arranged, castValues]

theorem arrangedAll_castAll : (children : List Condition) →
    arrangedAll (castAll types children) = castAll types (arrangedAll children)
  | [] => by rw [castAll, arrangedAll, castAll]
  | child :: rest => by
    rw [castAll, arrangedAll, arranged_castValues child, arrangedAll_castAll rest, arrangedAll, castAll]

end

mutual

theorem isWhole_castValues : (condition : Condition) →
    (castValues types condition).isWhole = condition.isWhole
  | .absent => by rw [castValues]
  | .simple comparison => by rw [castValues, isWhole, isWhole]
  | .all children => by rw [castValues, isWhole, isWhole, areWhole_castAll children]
  | .any children => by rw [castValues, isWhole, isWhole, areWhole_castAll children]

theorem areWhole_castAll : (children : List Condition) →
    areWhole (castAll types children) = areWhole children
  | [] => by rw [castAll]
  | child :: rest => by
    rw [castAll, areWhole, areWhole, isWhole_castValues child, areWhole_castAll rest]

end

/-- Casting changes the values of comparisons, and of those only texts that stand for a value of the
type of their column, into that value.  Casting again changes nothing, and a condition without a missing
part that is cast and then taken to the editor and back is what comes back from there, cast. -/
theorem castValues_changes_castable (condition : Condition) :
    condition.Leafwise (Comparison.CastsTo types) (castValues types condition) ∧
      castValues types (castValues types condition) = castValues types condition ∧
      (condition.isWhole → ∃ returned,
        (Group.ofCondition condition).toCondition = .ok returned ∧
        (Group.ofCondition (castValues types condition)).toCondition =
          .ok (castValues types returned)) := by
  refine ⟨leafwise_castValues types condition, castValues_castValues types condition, ?_⟩
  intro whole
  refine ⟨condition.arranged, Group.toCondition_ofCondition condition whole, ?_⟩
  rw [Group.toCondition_ofCondition _ ((isWhole_castValues types condition).trans whole),
    arranged_castValues]

end Conditions

section Sample

def formTypes : Fields ColumnType := [("active", .boolean), ("age", .integer), ("name", .text)]

/-- Texts that stand for values of the types of their columns, and texts and others that do not, with
the simple children behind a combination. -/
def entered : Condition :=
  .all [.any [.simple ⟨"active", "eq", .text " TRUE "⟩,
      .simple ⟨"age", "eq", .text "\x7b\x7b age \x7d\x7d"⟩],
    .simple ⟨"age", "in", .list [.text "42", .text "x", .bool true, .text "3.0"]⟩,
    .simple ⟨"name", "eq", .text "42"⟩, .simple ⟨"city", "eq", .text "42"⟩]

theorem castValues_changes_castable_entered :
    entered.isWhole ∧ ∃ cast returned, castValues formTypes entered = cast ∧
      cast = .all [.any [.simple ⟨"active", "eq", .bool true⟩,
          .simple ⟨"age", "eq", .text "\x7b\x7b age \x7d\x7d"⟩],
        .simple ⟨"age", "in", .list [.int 42, .text "x", .bool true, .int 3]⟩,
        .simple ⟨"name", "eq", .text "42"⟩, .simple ⟨"city", "eq", .text "42"⟩] ∧
      castValues formTypes cast = cast ∧
      (Group.ofCondition entered).toCondition = .ok returned ∧
      (Group.ofCondition cast).toCondition = .ok (castValues formTypes returned) := by
  have whole : entered.isWhole := rfl
  obtain ⟨_, again, edited⟩ := castValues_changes_castable formTypes entered
  obtain ⟨returned, back, castBack⟩ := edited whole
  exact ⟨whole, _, returned, rfl, rfl, again, back, castBack⟩

end Sample

end Condition

end StepQuery
