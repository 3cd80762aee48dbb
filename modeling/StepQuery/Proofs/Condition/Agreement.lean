import StepQuery.Proofs.Condition.Verdict

/-!
The two languages agree on conditions.  A condition is read directly on a document, and wherever the
columns it names hold something of the type that they are compared with, its match document and its
expression come to what it reads as: for every comparison the truth in either language is the reading,
and a combination depends on nothing else.
-/

namespace StepQuery

namespace Comparison

variable (database : Database) (document : FlatDocument)

/-- Whether a comparison is true of a document. -/
def holds (comparison : Comparison) : Bool :=
  let held := (document.at? comparison.column).getD .null
  match comparison.operator, comparison.value with
  | "in", .list items => items.any fun item => (database.order held item).isEq
  | "nin", .list items => items.all fun item => (database.order held item).isNe
  | "matches", pattern => database.pattern pattern held
  | "notmatches", pattern => !database.pattern pattern held
  | "isnull", _ => held.bracket == .null
  | "notnull", _ => held.bracket != .null
  | operator, value => (orderTest? operator).any fun test => test (database.order held value)

/-- The column holds something that is not null and has the type of what it is compared with. -/
def Fits (comparison : Comparison) : Prop :=
  ∃ held, document.at? comparison.column = some held ∧ held.bracket ≠ .null ∧
    ∀ operand ∈ comparison.operands, operand.bracket = held.bracket

variable {database document}

theorem Fits.isFieldPath {comparison : Comparison} (fits : comparison.Fits document) :
    isFieldPath comparison.column := by
  obtain ⟨held, found, _⟩ := fits
  exact isFieldPath_of_isFieldName (FlatDocument.isFieldName_of_at? found)

/-- In either language a regular comparison that fits a document is what it reads as. -/
theorem Fits.truths_eq_holds {comparison : Comparison} (fits : comparison.Fits document)
    (regular : comparison.Regular) :
    comparison.matchTruth database document = comparison.holds database document ∧
      comparison.expressionTruth database document = comparison.holds database document := by
  obtain ⟨column, operator, value⟩ := comparison
  obtain ⟨held, found, present, same⟩ := fits
  dsimp only at found
  have opposite : ∀ order : Ordering, order.isNe = !order.isEq := by decide
  obtain ⟨test, asked, _, compared⟩ | ⟨items, rfl, rfl | rfl⟩ | ⟨rfl | rfl, _⟩ | rfl | rfl :=
    regular.cases
  · have typed : value.bracket = held.bracket := same value (compared ▸ List.mem_singleton_self _)
    unfold orderTest? at asked
    split at asked <;> cases asked <;>
      simp [matchTruth, expressionTruth, holds, found, orderTest?, typed, opposite, Database.equals,
        Database.ordered, Database.compare_of_bracket typed]
  · simp only [matchTruth, expressionTruth, holds, found, Option.getD_some]
    exact ⟨Database.any_compare same, Database.any_compare same⟩
  · have excluded : (items.all fun item => (database.order held item).isNe) =
        !items.any fun item => (database.order held item).isEq := by
      simp only [List.not_any_eq_all_not, opposite]
    simp only [matchTruth, expressionTruth, holds, found, Option.getD_some, excluded]
    exact ⟨congrArg not (Database.any_compare same), congrArg not (Database.any_compare same)⟩
  all_goals
    simp [matchTruth, expressionTruth, holds, found, present, opposite, Database.equals,
      Database.matched_of_present present, Database.compare_null present]

end Comparison

namespace Condition

section Reading

variable (database : Database) (document : FlatDocument)

mutual

/-- Whether a condition is true of a document. -/
def holds : Condition → Bool
  | .absent => false
  | .simple comparison => comparison.holds database document
  | .all children => (verdicts children).all id
  | .any children => (verdicts children).any id

def verdicts : List Condition → List Bool
  | [] => []
  | child :: rest => holds child :: verdicts rest

end

mutual

theorem truth_holds : (condition : Condition) →
    condition.truth (Comparison.holds database document) = condition.holds database document
  | .absent => by rw [truth, holds]
  | .simple comparison => by rw [truth, holds]
  | .all children => by rw [truth, holds, truths_holds children]
  | .any children => by rw [truth, holds, truths_holds children]

theorem truths_holds : (children : List Condition) →
    truths (Comparison.holds database document) children = verdicts database document children
  | [] => by rw [truths, verdicts]
  | child :: rest => by rw [truths, verdicts, truth_holds child, truths_holds rest]

end

end Reading

/-- Both forms of a condition come to its reading. -/
theorem comesTo_holds {database : Database} {document : FlatDocument} (condition : Condition)
    (filled : condition.isFilled)
    (suits : ∀ comparison ∈ condition.comparisons, comparison.Regular ∧ comparison.Fits document) :
    ComesTo database document condition (condition.holds database document)
      (condition.holds database document) := by
  have both : ComesTo database document condition
      (condition.truth (Comparison.matchTruth database document))
      (condition.truth (Comparison.expressionTruth database document)) := by
    apply comesTo_truth condition filled
    intro comparison within
    obtain ⟨regular, fits⟩ := suits comparison within
    exact ⟨regular, fits.isFieldPath⟩
  have truths : ∀ comparison ∈ condition.comparisons,
      comparison.matchTruth database document = comparison.holds database document ∧
        comparison.expressionTruth database document = comparison.holds database document := by
    intro comparison within
    obtain ⟨regular, fits⟩ := suits comparison within
    exact fits.truths_eq_holds regular
  rwa [truth_congr condition fun comparison within => (truths comparison within).1,
    truth_congr condition fun comparison within => (truths comparison within).2, truth_holds] at both

/-- A condition that names its columns as a document holds them has both its forms, and they come to
what the condition says of the document. -/
theorem toMatch_toExpression_holds (database : Database) (document : FlatDocument)
    (condition : Condition) (filled : condition.isFilled)
    (regular : ∀ comparison ∈ condition.comparisons, comparison.Regular)
    (fits : ∀ comparison ∈ condition.comparisons, comparison.Fits document) :
    ∃ fields term, condition.toMatch = .ok fields ∧ condition.toExpression true = .ok term ∧
      database.satisfies document (Term.document fields).data =
        some (condition.holds database document) ∧
      database.evaluate document term.data =
        some (some (.bool (condition.holds database document))) := by
  apply comesTo_holds condition filled
  intro comparison within
  exact ⟨regular comparison within, fits comparison within⟩

section Sample

/-- Whole numbers in their order, texts in theirs, and patterns that stand for themselves anywhere
in a text. -/
def sampleDatabase : Database where
  order := compareLex (compareOn fun | .int value => value.toInt | _ => 0)
    (compareOn fun | .text value => value | _ => "")
  total := inferInstance
  pattern
    | .text pattern, .text value => value.toList.tails.any pattern.toList.isPrefixOf
    | _, _ => false

def resident : FlatDocument where
  fields := [("age", .int 30), ("city", .text "Paris"), ("name", .text "$ana")]
  flat := by decide

def eligible : Condition :=
  .all [.simple ⟨"age", "from", .int 18⟩,
    .any [.simple ⟨"city", "nin", .list [.text "Rome", .text "Paris"]⟩,
      .simple ⟨"city", "notmatches", .text "Lyon"⟩],
    .simple ⟨"name", "eq", .text "$ana"⟩, .simple ⟨"age", "notnull", .null⟩]

/-- A nested condition with a text that looks like a path, on a document that it is true of. -/
theorem toMatch_toExpression_eligible :
    (eligible.isFilled ∧ (∀ comparison ∈ eligible.comparisons, comparison.Regular) ∧
      ∀ comparison ∈ eligible.comparisons, comparison.Fits resident) ∧
    ∃ fields term, eligible.toMatch = .ok fields ∧ eligible.toExpression true = .ok term ∧
      sampleDatabase.satisfies resident (Term.document fields).data = some true ∧
      sampleDatabase.evaluate resident term.data = some (some (.bool true)) := by
  have leaves : eligible.comparisons =
      [⟨"age", "from", .int 18⟩, ⟨"city", "nin", .list [.text "Rome", .text "Paris"]⟩,
        ⟨"city", "notmatches", .text "Lyon"⟩, ⟨"name", "eq", .text "$ana"⟩,
        ⟨"age", "notnull", .null⟩] := by
    simp [eligible, comparisons, comparisonsOf]
  have filled : eligible.isFilled := by decide
  have regular : ∀ comparison ∈ eligible.comparisons, comparison.Regular := by
    simp only [leaves, List.forall_mem_cons]
    refine ⟨?_, ?_, ?_, ?_, ?_, nofun⟩
    · exact ⟨by decide, fun _ => rfl, nofun, nofun⟩
    · exact ⟨by decide, nofun, fun _ => ⟨_, rfl, by decide⟩, nofun⟩
    · exact ⟨by decide, fun _ => rfl, nofun, fun _ content same => by cases same; decide⟩
    · exact ⟨by decide, fun _ => rfl, nofun, nofun⟩
    · exact ⟨by decide, fun _ => rfl, nofun, nofun⟩
  have fits : ∀ comparison ∈ eligible.comparisons, comparison.Fits resident := by
    simp only [leaves, List.forall_mem_cons]
    refine ⟨?_, ?_, ?_, ?_, ?_, nofun⟩
    · exact ⟨.int 30, rfl, by decide, by decide⟩
    · exact ⟨.text "Paris", rfl, by decide, by decide⟩
    · exact ⟨.text "Paris", rfl, by decide, by decide⟩
    · exact ⟨.text "$ana", rfl, by decide, by decide⟩
    · exact ⟨.int 30, rfl, by decide, by decide⟩
  have verdict : eligible.holds sampleDatabase resident = true := by decide +kernel
  have agreement :=
    toMatch_toExpression_holds sampleDatabase resident eligible filled regular fits
  rw [verdict] at agreement
  exact ⟨⟨filled, regular, fits⟩, agreement⟩

end Sample

end Condition

end StepQuery
