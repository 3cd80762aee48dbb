import StepQuery.Template.Basic

/-!
Where templates are cut.  A template is a row of stretches, each with literal text, an opening
delimiter, what stands inside and a closing delimiter, and of a tail.  Every delimiter is the first one
that stands in what is left of the template, and the tail holds no further expression.
-/

namespace StepQuery

namespace Template

/-- A mark stands at a place of a text and at none before it. -/
def FirstAt (mark text : List Char) (place : Nat) : Prop :=
  mark <+: text.drop place ∧ ∀ earlier < place, ¬mark <+: text.drop earlier

section Cut

variable {mark text before after : List Char}

theorem firstAt_zero : FirstAt mark text 0 ↔ mark <+: text :=
  and_iff_left fun _ early => absurd early (Nat.not_lt_zero _)

theorem firstAt_cons {character : Char} {place : Nat} (elsewhere : ¬mark <+: character :: text) :
    FirstAt mark (character :: text) (place + 1) ↔ FirstAt mark text place := by
  constructor
  · rintro ⟨stands, first⟩
    exact ⟨stands, fun earlier before => first (earlier + 1) (by omega)⟩
  · rintro ⟨stands, first⟩
    refine ⟨stands, fun earlier before => ?_⟩
    cases earlier with
    | zero => exact elsewhere
    | succ earlier => exact first earlier (by omega)

/-- What stands behind a mark has no part in whether the mark is the first one. -/
theorem firstAt_append (after : List Char) :
    FirstAt mark (before ++ mark ++ after) before.length ↔
      FirstAt mark (before ++ mark) before.length := by
  have short {earlier : Nat} (place : earlier ≤ before.length) :
      mark <+: (before ++ mark ++ after).drop earlier ↔ mark <+: (before ++ mark).drop earlier := by
    rw [List.drop_append_of_le_length (by rw [List.length_append]; omega)]
    refine ⟨fun stands => ?_, fun stands => stands.trans (List.prefix_append _ _)⟩
    refine List.prefix_of_prefix_length_le stands (List.prefix_append _ _) ?_
    rw [List.length_drop, List.length_append]
    omega
  refine and_congr (short (Nat.le_refl _)) (forall₂_congr fun earlier place => ?_)
  rw [short (by omega)]

theorem cut?_eq_some_iff_firstAt :
    cut? mark text = some (before, after) ↔
      text = before ++ mark ++ after ∧ FirstAt mark text before.length := by
  induction text generalizing before with
  | nil =>
    rw [cut?]
    constructor
    · intro found
      split at found
      next empty =>
        obtain rfl := List.isEmpty_iff.mp empty
        cases found
        exact ⟨rfl, firstAt_zero.mpr List.nil_prefix⟩
      next => cases found
    · rintro ⟨whole, _⟩
      simp only [List.nil_eq, List.append_eq_nil_iff] at whole
      obtain ⟨⟨rfl, rfl⟩, rfl⟩ := whole
      rfl
  | cons character rest inductionHypothesis =>
    rw [cut?]
    by_cases stands : mark <+: character :: rest
    · rw [if_pos (List.isPrefixOf_iff_prefix.mpr stands), Option.some.injEq, Prod.mk.injEq]
      constructor
      · rintro ⟨rfl, rfl⟩
        refine ⟨?_, firstAt_zero.mpr stands⟩
        obtain ⟨tail, split⟩ := stands
        rw [← split, List.nil_append, List.drop_left]
      · rintro ⟨whole, _, first⟩
        cases before with
        | nil => exact ⟨rfl, by rw [whole, List.nil_append, List.drop_left]⟩
        | cons other inner => exact absurd stands (first 0 (Nat.zero_lt_succ _))
    · rw [if_neg (mt List.isPrefixOf_iff_prefix.mp stands), Option.map_eq_some_iff]
      constructor
      · rintro ⟨⟨inner, outer⟩, found, same⟩
        cases same
        obtain ⟨whole, first⟩ := inductionHypothesis.mp found
        exact ⟨congrArg (character :: ·) whole, (firstAt_cons stands).mpr first⟩
      · rintro ⟨whole, first⟩
        cases before with
        | nil => exact absurd (firstAt_zero.mp first) stands
        | cons other inner =>
          rw [List.cons_append, List.cons_append, List.cons.injEq] at whole
          obtain ⟨rfl, whole⟩ := whole
          exact ⟨(inner, after), inductionHypothesis.mpr ⟨whole, (firstAt_cons stands).mp first⟩, rfl⟩

/-- A text is cut at the first place of a mark. -/
theorem cut?_eq_some_iff :
    cut? mark text = some (before, after) ↔
      text = before ++ mark ++ after ∧ FirstAt mark (before ++ mark) before.length := by
  rw [cut?_eq_some_iff_firstAt]
  refine and_congr_right fun whole => ?_
  rw [whole, firstAt_append]

theorem cut?_eq_none_iff : cut? mark text = none ↔ ¬mark <:+: text := by
  induction text with
  | nil => simp [cut?]
  | cons character rest inductionHypothesis =>
    rw [cut?, List.infix_cons_iff, not_or, ← inductionHypothesis]
    by_cases stands : mark <+: character :: rest <;> simp [stands]

theorem contains_eq_false_iff : contains text mark = false ↔ ¬mark <:+: text := by
  rw [contains, ← cut?_eq_none_iff, Option.isSome_eq_false_iff, Option.isNone_iff_eq_none]

end Cut

/-- Literal text with the expression behind it, as it stands between the delimiters. -/
structure Stretch where
  literal : List Char
  inside : List Char

namespace Stretch

def text (delimiters : Delimiters) (stretch : Stretch) : List Char :=
  stretch.literal ++ delimiters.start ++ stretch.inside ++ delimiters.finish

def segments (stretch : Stretch) : List Segment :=
  Template.literal stretch.literal ++ [.expression (Text.trim stretch.inside)]

end Stretch

/-- An opening delimiter with a closing one behind it. -/
def HoldsExpression (delimiters : Delimiters) (text : List Char) : Prop :=
  ∃ before inside after, text = before ++ delimiters.start ++ inside ++ delimiters.finish ++ after

/-- A template is made of stretches, which end at the first delimiters there are, and of a tail without
expressions. -/
structure Cut (delimiters : Delimiters) (template : List Char) (stretches : List Stretch)
    (tail : List Char) : Prop where
  whole : template = stretches.flatMap (Stretch.text delimiters) ++ tail
  opened : ∀ stretch ∈ stretches,
    FirstAt delimiters.start (stretch.literal ++ delimiters.start) stretch.literal.length
  closed : ∀ stretch ∈ stretches,
    FirstAt delimiters.finish (stretch.inside ++ delimiters.finish) stretch.inside.length
  ended : ¬HoldsExpression delimiters tail

section Split

variable {delimiters : Delimiters} {template before inside rest tail : List Char}
  {stretches : List Stretch}

/-- Behind the first opening delimiter there is a closing one if there is one behind any. -/
theorem infix_of_holdsExpression (holds : HoldsExpression delimiters template)
    (opened : cut? delimiters.start template = some (before, inside)) :
    delimiters.finish <:+: inside := by
  obtain ⟨left, middle, right, parts⟩ := holds
  obtain ⟨whole, first⟩ := cut?_eq_some_iff.mp opened
  have stands : delimiters.start <+: template.drop left.length := by
    simp [parts, List.append_assoc]
  have early : before.length ≤ left.length := by
    refine Nat.le_of_not_lt fun late => ?_
    rw [← firstAt_append, ← whole] at first
    exact first.2 left.length late stands
  have outer : delimiters.finish ++ right <:+ template :=
    ⟨left ++ delimiters.start ++ middle, by simp [parts]⟩
  have inner : inside <:+ template := ⟨before ++ delimiters.start, whole.symm⟩
  have shorter : (delimiters.finish ++ right).length ≤ inside.length := by
    have sizes := congrArg List.length (whole.symm.trans parts)
    simp only [List.length_append] at sizes ⊢
    omega
  exact (List.prefix_append _ _).isInfix.trans (List.suffix_of_suffix_length_le outer inner shorter).isInfix

theorem split_of_not_holdsExpression (none : ¬HoldsExpression delimiters template) :
    split delimiters template = literal template := by
  rw [split]
  split
  next => rfl
  next before inside opened =>
    split
    next => rfl
    next expression rest closed =>
      refine absurd ⟨before, expression, rest, ?_⟩ none
      rw [(cut?_eq_some_iff.mp opened).1, (cut?_eq_some_iff.mp closed).1]
      simp

theorem split_of_cut? {expression : List Char}
    (opened : cut? delimiters.start template = some (before, inside))
    (closed : cut? delimiters.finish inside = some (expression, rest)) :
    split delimiters template =
      literal before ++ .expression (Text.trim expression) :: split delimiters rest := by
  rw [split]
  split
  next none => rw [opened] at none; cases none
  next found =>
    rw [opened] at found
    cases found
    split
    next none => rw [closed] at none; cases none
    next found =>
      rw [closed] at found
      cases found
      rfl

/-- The segments of a template are those of its stretches, with the tail. -/
theorem Cut.split_eq (cut : Cut delimiters template stretches tail) :
    split delimiters template = stretches.flatMap Stretch.segments ++ literal tail := by
  obtain ⟨whole, opened, closed, ended⟩ := cut
  induction stretches generalizing template with
  | nil =>
    obtain rfl : template = tail := whole
    exact split_of_not_holdsExpression ended
  | cons stretch others inductionHypothesis =>
    obtain ⟨firstOpened, othersOpened⟩ := List.forall_mem_cons.mp opened
    obtain ⟨firstClosed, othersClosed⟩ := List.forall_mem_cons.mp closed
    rw [List.flatMap_cons, List.append_assoc] at whole
    let rest := others.flatMap (Stretch.text delimiters) ++ tail
    have start : cut? delimiters.start template =
        some (stretch.literal, stretch.inside ++ delimiters.finish ++ rest) :=
      cut?_eq_some_iff.mpr ⟨by rw [whole, Stretch.text]; simp [rest], firstOpened⟩
    have finish : cut? delimiters.finish (stretch.inside ++ delimiters.finish ++ rest) =
        some (stretch.inside, rest) := cut?_eq_some_iff.mpr ⟨rfl, firstClosed⟩
    rw [split_of_cut? start finish, inductionHypothesis rfl othersOpened othersClosed,
      List.flatMap_cons, Stretch.segments]
    simp

theorem exists_cut (delimiters : Delimiters) (template : List Char) :
    ∃ stretches tail, Cut delimiters template stretches tail := by
  fun_induction split delimiters template with
  | case1 template opened =>
    refine ⟨[], template, rfl, List.forall_mem_nil _, List.forall_mem_nil _, ?_⟩
    rintro ⟨before, inside, after, parts⟩
    refine cut?_eq_none_iff.mp opened ⟨before, inside ++ delimiters.finish ++ after, ?_⟩
    simp [parts]
  | case2 template before inside opened closed =>
    refine ⟨[], template, rfl, List.forall_mem_nil _, List.forall_mem_nil _, fun holds => ?_⟩
    exact cut?_eq_none_iff.mp closed (infix_of_holdsExpression holds opened)
  | case3 template before inside opened expression rest closed inductionHypothesis =>
    obtain ⟨stretches, tail, whole, othersOpened, othersClosed, ended⟩ := inductionHypothesis
    obtain ⟨outer, firstOpened⟩ := cut?_eq_some_iff.mp opened
    obtain ⟨inner, firstClosed⟩ := cut?_eq_some_iff.mp closed
    refine ⟨⟨before, expression⟩ :: stretches, tail, ?_,
      List.forall_mem_cons.mpr ⟨firstOpened, othersOpened⟩,
      List.forall_mem_cons.mpr ⟨firstClosed, othersClosed⟩, ended⟩
    rw [outer, inner, whole]
    simp [Stretch.text]

theorem filterMap_expression?_segments (stretches : List Stretch) (tail : List Char) :
    (stretches.flatMap Stretch.segments ++ literal tail).filterMap expression? =
      stretches.map fun stretch => Text.trim stretch.inside := by
  have plain (text : List Char) : (literal text).filterMap expression? = [] := by
    unfold literal
    split <;> rfl
  rw [List.filterMap_append, plain, List.append_nil, List.filterMap_flatMap, List.map_eq_flatMap]
  congr 1
  funext stretch
  rw [Stretch.segments, List.filterMap_append, plain, List.nil_append]
  rfl

theorem Cut.expressions_eq (cut : Cut delimiters template stretches tail) :
    expressions delimiters template = stretches.map fun stretch => Text.trim stretch.inside := by
  rw [expressions, cut.split_eq, filterMap_expression?_segments]

end Split

/-- Splitting loses nothing and takes the first delimiters: a template is its stretches and its tail,
whose segments are what it is split into, empty literals left out and the blanks around expressions
dropped. -/
theorem split_lossless (delimiters : Delimiters) (template : List Char) :
    ∃ (stretches : List Stretch) (tail : List Char),
      template = stretches.flatMap (Stretch.text delimiters) ++ tail ∧
      split delimiters template = stretches.flatMap Stretch.segments ++ literal tail ∧
      (∀ stretch ∈ stretches,
        FirstAt delimiters.start (stretch.literal ++ delimiters.start) stretch.literal.length ∧
        FirstAt delimiters.finish (stretch.inside ++ delimiters.finish) stretch.inside.length) ∧
      ¬HoldsExpression delimiters tail ∧
      expressions delimiters template = stretches.map fun stretch => Text.trim stretch.inside := by
  obtain ⟨stretches, tail, cut⟩ := exists_cut delimiters template
  exact ⟨stretches, tail, cut.whole, cut.split_eq,
    fun stretch member => ⟨cut.opened stretch member, cut.closed stretch member⟩, cut.ended,
    cut.expressions_eq⟩

end Template

end StepQuery
