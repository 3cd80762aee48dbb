import StepQuery.Proofs.Template.Cutting
import StepQuery.Proofs.Text.Trimming
import StepQuery.Summary

/-!
When a template passes for one expression.  Sentences and rendering both look at the delimiters at the
ends of the trimmed text.  Only the former make sure that it has room for both of them; rendering need
not, for it looks only at templates with an expression, and no such expression reaches into the blanks
that are trimmed away.
-/

namespace StepQuery

open Text (trim BeginsVisibly EndsVisibly)

namespace Template

variable {delimiters : Delimiters} {template text inner : List Char}

/-- Blanks aside, a template is what stands between a pair of delimiters, and that holds no delimiter. -/
structure Encloses (delimiters : Delimiters) (template inner : List Char) : Prop where
  trimmed : trim template = delimiters.start ++ inner ++ delimiters.finish
  unopened : ¬delimiters.start <:+: inner
  unclosed : ¬delimiters.finish <:+: inner

theorem slice?_append (before middle after : List Char) :
    slice? (before ++ middle ++ after) before.length
      ((before ++ middle ++ after).length - after.length) = some middle := by
  have last : (before ++ middle ++ after).length - after.length = (before ++ middle).length := by
    rw [@List.length_append _ (before ++ middle) after]
    omega
  rw [last, slice?, if_pos (by simp only [List.length_append]; omega), List.take_left, List.drop_left]

/-- A text with room for both of its ends is made of them and of what stands between. -/
theorem exists_eq_append {start finish : List Char} (begins : start <+: text) (ends : finish <:+ text)
    (room : start.length + finish.length ≤ text.length) : ∃ inner, text = start ++ inner ++ finish := by
  obtain ⟨rest, rfl⟩ := begins
  rw [List.length_append] at room
  obtain ⟨inner, rfl⟩ := List.suffix_of_suffix_length_le ends (List.suffix_append _ _) (by omega)
  exact ⟨inner, (List.append_assoc _ _ _).symm⟩

/-- A pair of delimiters at the ends of a text, with room for both of them. -/
theorem ends_append (delimiters : Delimiters) (inner : List Char) :
    delimiters.start.isPrefixOf (delimiters.start ++ inner ++ delimiters.finish) ∧
      delimiters.finish.isSuffixOf (delimiters.start ++ inner ++ delimiters.finish) := by
  rw [List.isPrefixOf_iff_prefix, List.isSuffixOf_iff_suffix, List.append_assoc]
  exact ⟨List.prefix_append _ _, (List.suffix_append _ _).trans (List.suffix_append _ _)⟩

theorem isWhole?_of_trim
    (trimmed : trim template = delimiters.start ++ inner ++ delimiters.finish) :
    isWhole? delimiters template =
      some (!contains inner delimiters.start && !contains inner delimiters.finish) := by
  obtain ⟨begins, ends⟩ := ends_append delimiters inner
  rw [isWhole?, trimmed, begins, ends, slice?_append]
  rfl

theorem expression?_of_trim
    (trimmed : trim template = delimiters.start ++ inner ++ delimiters.finish) :
    Summary.expression? delimiters template =
      if contains inner delimiters.start || contains inner delimiters.finish then none
      else some (trim inner) := by
  obtain ⟨begins, ends⟩ := ends_append delimiters inner
  have room : delimiters.start.length + delimiters.finish.length ≤
      (delimiters.start ++ inner ++ delimiters.finish).length := by
    simp only [List.length_append]
    omega
  rw [Summary.expression?, trimmed, begins, ends, decide_eq_true room, slice?_append]
  rfl

/-- The delimiters stand at the ends of a text and do not overlap. -/
def Fits (delimiters : Delimiters) (text : List Char) : Prop :=
  delimiters.start <+: text ∧ delimiters.finish <:+ text ∧
    delimiters.start.length + delimiters.finish.length ≤ text.length

theorem fits_of_isWhole? (whole : isWhole? delimiters template = some true) :
    Fits delimiters (trim template) := by
  rw [isWhole?] at whole
  split at whole
  next ends =>
    rw [Bool.and_eq_true, List.isPrefixOf_iff_prefix, List.isSuffixOf_iff_suffix] at ends
    obtain ⟨inner, sliced, _⟩ := Option.bind_eq_some_iff.mp whole
    rw [slice?, Option.ite_none_right_eq_some] at sliced
    have finish := ends.2.length_le
    exact ⟨ends.1, ends.2, by omega⟩
  next => cases whole

theorem fits_of_expression? (found : (Summary.expression? delimiters template).isSome) :
    Fits delimiters (trim template) := by
  rw [Summary.expression?] at found
  split at found
  next ends =>
    rw [Bool.and_eq_true, Bool.and_eq_true, decide_eq_true_eq, List.isPrefixOf_iff_prefix,
      List.isSuffixOf_iff_suffix] at ends
    exact ⟨ends.1.2, ends.2, ends.1.1⟩
  next => cases found

theorem isWhole?_eq_true_iff :
    isWhole? delimiters template = some true ↔ ∃ inner, Encloses delimiters template inner := by
  constructor
  · intro whole
    obtain ⟨begins, ends, room⟩ := fits_of_isWhole? whole
    obtain ⟨inner, trimmed⟩ := exists_eq_append begins ends room
    rw [isWhole?_of_trim trimmed, Option.some.injEq, Bool.and_eq_true, Bool.not_eq_true',
      Bool.not_eq_true', contains_eq_false_iff, contains_eq_false_iff] at whole
    exact ⟨inner, trimmed, whole.1, whole.2⟩
  · rintro ⟨inner, trimmed, unopened, unclosed⟩
    rw [isWhole?_of_trim trimmed, contains_eq_false_iff.mpr unopened,
      contains_eq_false_iff.mpr unclosed]
    rfl

theorem isSome_expression?_iff :
    (Summary.expression? delimiters text).isSome ↔ ∃ inner, Encloses delimiters text inner := by
  constructor
  · intro found
    obtain ⟨begins, ends, room⟩ := fits_of_expression? found
    obtain ⟨inner, trimmed⟩ := exists_eq_append begins ends room
    rw [expression?_of_trim trimmed] at found
    split at found
    next => cases found
    next none =>
      rw [Bool.or_eq_true, not_or, Bool.not_eq_true, Bool.not_eq_true, contains_eq_false_iff,
        contains_eq_false_iff] at none
      exact ⟨inner, trimmed, none.1, none.2⟩
  · rintro ⟨inner, trimmed, unopened, unclosed⟩
    rw [expression?_of_trim trimmed, contains_eq_false_iff.mpr unopened,
      contains_eq_false_iff.mpr unclosed]
    rfl

/-- There is an answer unless the delimiters stand at both ends and overlap. -/
theorem isWhole?_isSome (room : delimiters.start <+: trim template →
    delimiters.finish <:+ trim template → Fits delimiters (trim template)) :
    (isWhole? delimiters template).isSome := by
  by_cases ends : delimiters.start <+: trim template ∧ delimiters.finish <:+ trim template
  · obtain ⟨begins, ends, long⟩ := room ends.1 ends.2
    obtain ⟨inner, trimmed⟩ := exists_eq_append begins ends long
    rw [isWhole?_of_trim trimmed]
    rfl
  · rw [isWhole?, if_neg]
    · rfl
    · rwa [Bool.and_eq_true, List.isPrefixOf_iff_prefix, List.isSuffixOf_iff_suffix]

/-- A text that has an expression in it has room for both delimiters when it is trimmed, if it begins and
ends with them. -/
theorem fits_of_holdsExpression (holds : HoldsExpression delimiters text)
    (begins : delimiters.start <+: trim text) (ends : delimiters.finish <:+ trim text) :
    Fits delimiters (trim text) := by
  obtain ⟨before, inside, after, parts⟩ := holds
  have nonempty : trim text ≠ [] := fun empty =>
    delimiters.start_ne_nil (List.prefix_nil.mp (empty ▸ begins))
  have opens := (Text.beginsVisibly_trim nonempty).of_isPrefix delimiters.start_ne_nil begins
  have closes := (Text.endsVisibly_trim nonempty).of_isSuffix delimiters.finish_ne_nil ends
  have within : delimiters.start ++ inside ++ delimiters.finish <:+: trim text :=
    Text.infix_trim ((opens.append _).append _) (closes.append _) ⟨before, after, by simp [parts]⟩
  have shorter := within.length_le
  simp only [List.length_append] at shorter
  exact ⟨begins, ends, by omega⟩

theorem expressions_ne_nil_iff :
    expressions delimiters template ≠ [] ↔ HoldsExpression delimiters template := by
  obtain ⟨stretches, tail, cut⟩ := exists_cut delimiters template
  rw [cut.expressions_eq]
  cases stretches with
  | nil =>
    obtain rfl : template = tail := cut.whole
    exact iff_of_false (fun none => none rfl) cut.ended
  | cons stretch others =>
    refine iff_of_true (List.cons_ne_nil _ _)
      ⟨stretch.literal, stretch.inside, others.flatMap (Stretch.text delimiters) ++ tail, ?_⟩
    rw [cut.whole, List.flatMap_cons, Stretch.text, List.append_assoc]

theorem Encloses.holdsExpression (encloses : Encloses delimiters text inner) :
    HoldsExpression delimiters text := by
  obtain ⟨before, after, whole, _⟩ := Text.exists_eq_append_trim text
  exact ⟨before, inner, after, by rw [whole, encloses.trimmed]; simp⟩

/-- Sentences and rendering take the same texts for lone expressions, and rendering never looks between
delimiters that overlap. -/
theorem expression?_isSome_iff (delimiters : Delimiters) (text : List Char) :
    ((Summary.expression? delimiters text).isSome ↔
      expressions delimiters text ≠ [] ∧ isWhole? delimiters text = some true) ∧
    (expressions delimiters text = [] ∨ (isWhole? delimiters text).isSome) := by
  constructor
  · rw [isSome_expression?_iff, isWhole?_eq_true_iff, expressions_ne_nil_iff]
    exact ⟨fun ⟨inner, encloses⟩ => ⟨encloses.holdsExpression, inner, encloses⟩, And.right⟩
  · by_cases holds : HoldsExpression delimiters text
    · exact .inr (isWhole?_isSome (fits_of_holdsExpression holds))
    · exact .inl (not_not.mp (mt expressions_ne_nil_iff.mp holds))

end Template

end StepQuery
