import Mathlib.Data.List.Forall2
import StepQuery.Proofs.Attempt
import StepQuery.Proofs.Template.Wholeness

/-!
What a template comes to.  A template that is one expression but for blanks should come to the value of
the expression, and any other one with expressions to a text in which nothing of its literals is lost.
Rendering looks at the ends of the trimmed template instead of its segments.  The two agree unless the
closing delimiter overlaps itself at the end, where literal text is lost, or an opening delimiter within
the expression or a blank at the end of a delimiter hides that there is only one expression.
-/

namespace StepQuery

open Text (AllBlank BeginsVisibly EndsVisibly trim)

namespace Template

section Segments

variable {evaluator : Evaluator} {segments : List Segment} {template : String} {value : Value}
  {lone other : Prop}

/-- What a segment becomes in a text. -/
inductive Shows (evaluator : Evaluator) : Segment → String → Prop
  | literal (text : List Char) : Shows evaluator (.literal text) (String.ofList text)
  | expression {text : List Char} {value : Value} (evaluates : evaluator text = some value) :
    Shows evaluator (.expression text) value.display

/-- What a template of the given segments comes to if it is, or is not, to be taken for a lone
expression. -/
inductive ComesTo (evaluator : Evaluator) (template : String) (segments : List Segment) (lone : Prop) :
    Value → Prop
  | plain (none : segments.filterMap expression? = []) :
    ComesTo evaluator template segments lone (.text template)
  | native {first : List Char} {others : List (List Char)} {value : Value}
    (found : segments.filterMap expression? = first :: others) (alone : lone)
    (evaluates : evaluator first = some value) : ComesTo evaluator template segments lone value
  | filled {texts : List String} (some : segments.filterMap expression? ≠ []) (among : ¬lone)
    (shown : List.Forall₂ (Shows evaluator) segments texts) :
    ComesTo evaluator template segments lone (.text (String.join texts))

/-- Exactly one expression, and nothing but blanks around it. -/
def IsLone (segments : List Segment) : Prop :=
  (∃ expression, segments.filterMap expression? = [expression]) ∧
    ∀ text, .literal text ∈ segments → AllBlank text

theorem evaluate_eq_ok_iff {expression : List Char} :
    evaluate evaluator expression = .ok value ↔ evaluator expression = some value := by
  unfold evaluate
  split
  next found => rw [found, Except.ok.injEq, Option.some.injEq]
  next none => rw [none]; exact ⟨nofun, nofun⟩

theorem fill_eq_ok_iff {text : String} :
    fill evaluator segments = .ok text ↔
      ∃ texts, List.Forall₂ (Shows evaluator) segments texts ∧ text = String.join texts := by
  induction segments generalizing text with
  | nil => simp [fill, eq_comm]
  | cons segment rest inductionHypothesis =>
    have shown : fill evaluator (segment :: rest) = .ok text ↔
        ∃ head tail, Shows evaluator segment head ∧ fill evaluator rest = .ok tail ∧
          text = head ++ tail := by
      cases segment with
      | literal content =>
        rw [fill, Attempt.bind_eq_ok]
        constructor
        · rintro ⟨tail, filled, same⟩
          cases same
          exact ⟨_, tail, .literal content, filled, rfl⟩
        · rintro ⟨_, tail, ⟨⟩, filled, rfl⟩
          exact ⟨tail, filled, rfl⟩
      | expression content =>
        simp only [fill, Attempt.bind_eq_ok, evaluate_eq_ok_iff]
        constructor
        · rintro ⟨value, evaluates, tail, filled, same⟩
          cases same
          exact ⟨_, tail, .expression evaluates, filled, rfl⟩
        · rintro ⟨head, tail, shows, filled, rfl⟩
          cases shows with
          | expression evaluates => exact ⟨_, evaluates, tail, filled, rfl⟩
    rw [shown]
    constructor
    · rintro ⟨head, tail, shows, filled, rfl⟩
      obtain ⟨texts, others, rfl⟩ := inductionHypothesis.mp filled
      exact ⟨head :: texts, .cons shows others, String.join_cons.symm⟩
    · rintro ⟨_, _ | ⟨shows, others⟩, rfl⟩
      exact ⟨_, _, shows, inductionHypothesis.mpr ⟨_, others, rfl⟩, String.join_cons⟩

theorem exists_shows (always : ∀ expression, ∃ value, evaluator expression = some value)
    (segments : List Segment) : ∃ texts, List.Forall₂ (Shows evaluator) segments texts := by
  induction segments with
  | nil => exact ⟨[], .nil⟩
  | cons segment rest inductionHypothesis =>
    obtain ⟨texts, others⟩ := inductionHypothesis
    cases segment with
    | literal text => exact ⟨_, .cons (.literal text) others⟩
    | expression text =>
      obtain ⟨value, evaluates⟩ := always text
      exact ⟨_, .cons (.expression evaluates) others⟩

/-- Templates with expressions come to the same under two views of being alone exactly if the views
agree: an expression that comes to nothing shows which of them was taken. -/
theorem comesTo_congr_iff (found : segments.filterMap expression? ≠ []) :
    (∀ evaluator value, ComesTo evaluator template segments lone value →
      ComesTo evaluator template segments other value) ↔ (lone ↔ other) := by
  obtain ⟨first, others, expressions⟩ := List.exists_cons_of_ne_nil found
  constructor
  · intro carried
    constructor
    · intro alone
      have comes := carried (fun _ => some .null) .null (.native expressions alone rfl)
      generalize same : Value.null = value at comes
      cases comes with
      | plain | filled => cases same
      | native _ alone => exact alone
    · intro alone
      by_contra among
      obtain ⟨texts, shown⟩ : ∃ texts, List.Forall₂ (Shows fun _ => some .null) segments texts :=
        exists_shows (fun _ => ⟨_, rfl⟩) segments
      have comes := carried (fun _ => some .null) _ (.filled found among shown)
      generalize same : Value.text (String.join texts) = value at comes
      cases comes with
      | plain none => exact found none
      | native _ _ evaluates => cases same; cases evaluates
      | filled _ among => exact among alone
  · intro agree evaluator value comes
    rwa [← propext agree]

end Segments

section Rendering

variable {delimiters : Delimiters} {template tail inner : List Char} {stretch : Stretch}
  {stretches others : List Stretch}

/-- Rendering takes a template for a lone expression when delimiters enclose it. -/
theorem render_eq_ok_iff {evaluator : Evaluator} {template : String} {value : Value} :
    render delimiters evaluator template = .ok value ↔
      ComesTo evaluator template (split delimiters template.toList)
        (∃ inner, Encloses delimiters template.toList inner) value := by
  rw [render, ← isWhole?_eq_true_iff]
  cases found : (split delimiters template.toList).filterMap expression? with
  | nil =>
    constructor
    · intro same
      cases same
      exact .plain found
    · rintro (_ | ⟨some, _, _⟩ | ⟨some, _, _⟩)
      · rfl
      · rw [found] at some; cases some
      · exact absurd found some
  | cons first others =>
    by_cases whole : isWhole? delimiters template.toList = some true
    · change (if _ then _ else _) = _ ↔ _
      rw [if_pos (beq_iff_eq.mpr whole), evaluate_eq_ok_iff]
      refine ⟨.native found whole, ?_⟩
      rintro (none | ⟨same, _, evaluates⟩ | ⟨_, among, _⟩)
      · rw [found] at none; cases none
      · rw [found] at same; cases same; exact evaluates
      · exact absurd whole among
    · change (if _ then _ else _) = _ ↔ _
      rw [if_neg (mt beq_iff_eq.mp whole), Attempt.map_eq_ok]
      constructor
      · rintro ⟨text, filled, rfl⟩
        obtain ⟨texts, shown, rfl⟩ := fill_eq_ok_iff.mp filled
        exact .filled (found ▸ List.cons_ne_nil _ _) whole shown
      · rintro (none | ⟨_, alone, _⟩ | ⟨_, _, shown⟩)
        · rw [found] at none; cases none
        · exact absurd alone whole
        · exact ⟨_, fill_eq_ok_iff.mpr ⟨_, shown, rfl⟩, rfl⟩

theorem mem_literal {text content : List Char} :
    .literal content ∈ literal text ↔ content = text ∧ text ≠ [] := by
  cases text <;> simp [literal]

theorem isLone_iff (cut : Cut delimiters template stretches tail) :
    IsLone (split delimiters template) ↔
      ∃ stretch, stretches = [stretch] ∧ AllBlank stretch.literal ∧ AllBlank tail := by
  rw [IsLone, cut.split_eq, filterMap_expression?_segments]
  constructor
  · rintro ⟨⟨expression, single⟩, blank⟩
    obtain ⟨stretch, rfl, _⟩ := List.map_eq_singleton_iff.mp single
    have blankOf (text : List Char) (member : text ≠ [] → .literal text ∈
        [stretch].flatMap Stretch.segments ++ literal tail) : AllBlank text := by
      by_cases empty : text = []
      · rw [empty]; exact List.forall_mem_nil _
      · exact blank text (member empty)
    refine ⟨stretch, rfl, blankOf _ fun nonempty => ?_, blankOf _ fun nonempty => ?_⟩
    · simp [Stretch.segments, mem_literal, nonempty]
    · simp [mem_literal, nonempty]
  · rintro ⟨stretch, rfl, before, after⟩
    refine ⟨⟨trim stretch.inside, rfl⟩, fun text member => ?_⟩
    simp only [List.flatMap_cons, List.flatMap_nil, Stretch.segments, List.append_nil, List.mem_append,
      mem_literal, List.mem_singleton, reduceCtorEq, or_false] at member
    rcases member with ⟨rfl, _⟩ | ⟨rfl, _⟩
    · exact before
    · exact after

/-- Delimiters at the ends of a text are visible there. -/
theorem Encloses.visible (encloses : Encloses delimiters template inner) :
    BeginsVisibly delimiters.start ∧ EndsVisibly delimiters.finish := by
  have nonempty : trim template ≠ [] := by
    rw [encloses.trimmed]
    simp [delimiters.start_ne_nil]
  have begins := Text.beginsVisibly_trim nonempty
  have ends := Text.endsVisibly_trim nonempty
  rw [encloses.trimmed] at begins ends
  rw [List.append_assoc] at begins
  exact ⟨begins.of_isPrefix delimiters.start_ne_nil (List.prefix_append _ _),
    ends.of_isSuffix delimiters.finish_ne_nil (List.suffix_append _ _)⟩

theorem firstAt_of_allBlank {mark before : List Char} (visible : BeginsVisibly mark)
    (blank : AllBlank before) : FirstAt mark (before ++ mark) before.length := by
  refine ⟨by simp only [List.drop_left, List.prefix_rfl], fun earlier place stands => ?_⟩
  rw [List.drop_append_of_le_length (Nat.le_of_lt place)] at stands
  obtain ⟨after, whole⟩ := stands
  have nonempty : before.drop earlier ≠ [] := by
    rw [← List.length_pos_iff, List.length_drop]
    omega
  have begins := visible.append after
  rw [whole] at begins
  exact (blank.drop earlier).not_beginsVisibly (begins.of_isPrefix nonempty (List.prefix_append _ _))

theorem length_le_of_firstAt {mark left right after rest : List Char}
    (first : FirstAt mark (left ++ mark) left.length)
    (same : left ++ mark ++ after = right ++ mark ++ rest) : left.length ≤ right.length := by
  refine Nat.le_of_not_lt fun late => ?_
  rw [← firstAt_append after, same] at first
  refine first.2 right.length late ?_
  rw [List.append_assoc, List.drop_left]
  exact List.prefix_append _ _

/-- What is left behind the first place of a mark, where a text ends with the mark but for what is behind
it: the end of the mark, at most, without its first character. -/
theorem exists_overlap {mark left right after rest : List Char}
    (first : FirstAt mark (left ++ mark) left.length) (elsewhere : ¬mark <:+: right)
    (same : left ++ mark ++ rest = right ++ mark ++ after) :
    ∃ extra, rest = extra ++ after ∧ left ++ mark ++ extra = right ++ mark ∧
      extra.length < mark.length := by
  have early := length_le_of_firstAt first same
  have sizes := congrArg List.length same
  simp only [List.length_append] at sizes
  have inner : rest <:+ right ++ mark ++ after := same ▸ List.suffix_append _ _
  obtain ⟨extra, rfl⟩ := List.suffix_of_suffix_length_le (List.suffix_append _ _) inner (by omega)
  rw [← List.append_assoc, List.append_cancel_right_eq] at same
  refine ⟨extra, rfl, same, Nat.lt_of_not_le fun long => elsewhere ?_⟩
  have ahead : left ++ mark <+: right ++ mark := ⟨extra, same⟩
  have shorter : (left ++ mark).length ≤ right.length := by
    have sizes := congrArg List.length same
    simp only [List.length_append] at sizes ⊢
    omega
  exact (List.suffix_append left mark).isInfix.trans
    (List.prefix_of_prefix_length_le ahead (List.prefix_append _ _) shorter).isInfix

/-- No expression ends with blanks behind a text that is too short for its closing delimiter. -/
theorem not_holdsExpression_of_short {extra blank : List Char} (visible : EndsVisibly delimiters.finish)
    (short : extra.length < delimiters.finish.length) (blanks : AllBlank blank) :
    ¬HoldsExpression delimiters (extra ++ blank) := by
  rintro ⟨before, inside, after, whole⟩
  let front := before ++ delimiters.start ++ inside ++ delimiters.finish
  have long : extra.length < front.length := by
    simp only [front, List.length_append]
    omega
  obtain ⟨others, parts⟩ : extra <+: front :=
    List.prefix_of_prefix_length_le (List.prefix_append _ blank) ⟨after, whole.symm⟩ (Nat.le_of_lt long)
  have nonempty : others ≠ [] := by
    rintro rfl
    rw [← parts, List.append_nil] at long
    exact Nat.lt_irrefl _ long
  have ends : EndsVisibly others := by
    refine EndsVisibly.of_isSuffix ?_ nonempty ⟨extra, parts⟩
    exact visible.append _
  refine AllBlank.not_endsVisibly (fun character member => blanks character ?_) ends
  have tail : others ++ after = blank := by
    rw [← List.append_cancel_left_eq extra, ← List.append_assoc, parts]
    exact whole.symm
  exact tail ▸ List.mem_append_left after member

/-- How an enclosed template is cut: into one stretch behind blanks, and a tail.  The tail begins with the
end of the last delimiter if that overlaps an earlier one. -/
theorem Encloses.exists_overlap_of_cut (encloses : Encloses delimiters template inner)
    (cut : Cut delimiters template stretches tail) :
    ∃ stretch extra blank, stretches = [stretch] ∧ AllBlank stretch.literal ∧
      tail = extra ++ blank ∧ AllBlank blank ∧
      stretch.inside ++ delimiters.finish ++ extra = inner ++ delimiters.finish := by
  obtain ⟨before, blank, whole, blankBefore, blankAfter⟩ := Text.exists_eq_append_trim template
  rw [encloses.trimmed] at whole
  obtain ⟨startVisible, finishVisible⟩ := encloses.visible
  cases stretches with
  | nil =>
    obtain rfl : template = tail := cut.whole
    exact absurd encloses.holdsExpression cut.ended
  | cons stretch others =>
    let rest := others.flatMap (Stretch.text delimiters) ++ tail
    have opened := cut.opened stretch List.mem_cons_self
    have closed := cut.closed stretch List.mem_cons_self
    -- Both ways to take the template apart begin with the first opening delimiter.
    have one : cut? delimiters.start template =
        some (stretch.literal, stretch.inside ++ delimiters.finish ++ rest) :=
      cut?_eq_some_iff.mpr ⟨by rw [cut.whole, List.flatMap_cons, Stretch.text]; simp [rest], opened⟩
    have other : cut? delimiters.start template = some (before, inner ++ delimiters.finish ++ blank) :=
      cut?_eq_some_iff.mpr ⟨by rw [whole]; simp, firstAt_of_allBlank startVisible blankBefore⟩
    rw [one, Option.some.injEq, Prod.mk.injEq] at other
    obtain ⟨rfl, same⟩ := other
    obtain ⟨extra, split, closing, short⟩ := exists_overlap closed encloses.unclosed same
    cases others with
    | nil => exact ⟨stretch, extra, blank, rfl, blankBefore, split, blankAfter, closing⟩
    | cons second others =>
      refine absurd ?_ (not_holdsExpression_of_short finishVisible short blankAfter)
      refine ⟨second.literal, second.inside, others.flatMap (Stretch.text delimiters) ++ tail, ?_⟩
      rw [← split]
      simp [rest, Stretch.text]

/-- Delimiters enclose a template, but the closing one stands already before the end, where it overlaps
itself. -/
def Overruns (delimiters : Delimiters) (template : List Char) : Prop :=
  ∃ inner, Encloses delimiters template inner ∧
    ∃ earlier < inner.length, delimiters.finish <+: (inner ++ delimiters.finish).drop earlier

/-- A template with one expression and blanks around it has an opening delimiter also within the
expression, or its delimiters have blanks at their outer ends. -/
def Overlooked (delimiters : Delimiters) (template : List Char) : Prop :=
  ∃ stretch tail, Cut delimiters template [stretch] tail ∧ AllBlank stretch.literal ∧ AllBlank tail ∧
    (delimiters.start <:+: stretch.inside ∨ ¬BeginsVisibly delimiters.start ∨
      ¬EndsVisibly delimiters.finish)

theorem overruns_iff :
    Overruns delimiters template ↔
      (∃ inner, Encloses delimiters template inner) ∧ ¬IsLone (split delimiters template) := by
  obtain ⟨stretches, tail, cut⟩ := exists_cut delimiters template
  rw [isLone_iff cut]
  constructor
  · rintro ⟨inner, encloses, earlier, place, stands⟩
    refine ⟨⟨inner, encloses⟩, ?_⟩
    rintro ⟨stretch, rfl, _, blankTail⟩
    obtain ⟨_, extra, blank, ⟨⟩, _, rfl, _, closing⟩ := encloses.exists_overlap_of_cut cut
    -- What is left of the closing delimiter is visible, so nothing is left of it.
    have nothing : extra = [] := by
      by_contra some
      have ends := (encloses.visible.2.append inner).of_isSuffix some ⟨_, closing⟩
      exact AllBlank.not_endsVisibly (List.forall_mem_append.mp blankTail).1 ends
    rw [nothing, List.append_nil, List.append_cancel_right_eq] at closing
    exact (cut.closed stretch List.mem_cons_self).2 earlier (closing ▸ place) (closing ▸ stands)
  · rintro ⟨⟨inner, encloses⟩, among⟩
    obtain ⟨stretch, extra, blank, rfl, before, rfl, after, closing⟩ :=
      encloses.exists_overlap_of_cut cut
    refine ⟨inner, encloses, stretch.inside.length, ?_, ?_⟩
    · have some : extra ≠ [] := fun nothing => among ⟨stretch, rfl, before, nothing ▸ after⟩
      have sizes := congrArg List.length closing
      have positive := List.length_pos_iff.mpr some
      simp only [List.length_append] at sizes
      omega
    · rw [← closing, List.append_assoc, List.drop_left]
      exact List.prefix_append _ _

theorem overlooked_iff :
    Overlooked delimiters template ↔
      IsLone (split delimiters template) ∧ ¬∃ inner, Encloses delimiters template inner := by
  have trimmed {stretch : Stretch} {tail : List Char} (cut : Cut delimiters template [stretch] tail)
      (before : AllBlank stretch.literal) (after : AllBlank tail)
      (startVisible : BeginsVisibly delimiters.start) (finishVisible : EndsVisibly delimiters.finish) :
      trim template = delimiters.start ++ stretch.inside ++ delimiters.finish := by
    rw [cut.whole, ← Text.trim_of_allBlank ((startVisible.append _).append _) (finishVisible.append _)
      before after]
    simp [Stretch.text]
  constructor
  · rintro ⟨stretch, tail, cut, before, after, cause⟩
    refine ⟨(isLone_iff cut).mpr ⟨stretch, rfl, before, after⟩, ?_⟩
    rintro ⟨inner, encloses⟩
    obtain ⟨startVisible, finishVisible⟩ := encloses.visible
    rcases cause with opened | startBlank | finishBlank
    · have same := (encloses.trimmed.symm.trans (trimmed cut before after startVisible finishVisible))
      rw [List.append_cancel_right_eq, List.append_cancel_left_eq] at same
      exact encloses.unopened (same ▸ opened)
    · exact startBlank startVisible
    · exact finishBlank finishVisible
  · rintro ⟨lone, apart⟩
    obtain ⟨stretches, tail, cut⟩ := exists_cut delimiters template
    obtain ⟨stretch, rfl, before, after⟩ := (isLone_iff cut).mp lone
    refine ⟨stretch, tail, cut, before, after, ?_⟩
    by_contra none
    simp only [not_or, not_not] at none
    obtain ⟨unopened, startVisible, finishVisible⟩ := none
    refine apart ⟨stretch.inside, trimmed cut before after startVisible finishVisible, unopened, ?_⟩
    rintro ⟨front, back, inside⟩
    -- A closing delimiter within the expression would come first.
    refine (cut.closed stretch List.mem_cons_self).2 front.length ?_ ?_
    · have positive := List.length_pos_iff.mpr delimiters.finish_ne_nil
      rw [← inside]
      simp only [List.length_append]
      omega
    · rw [← inside, List.append_assoc, List.append_assoc, List.drop_left]
      exact List.prefix_append _ _

theorem encloses_iff_isLone_iff :
    ((∃ inner, Encloses delimiters template inner) ↔ IsLone (split delimiters template)) ↔
      ¬Overruns delimiters template ∧ ¬Overlooked delimiters template := by
  rw [overruns_iff, overlooked_iff]
  tauto

end Rendering

/-- What a template renders to, and when that is what its segments call for: exactly if it neither
overruns its closing delimiter nor has its one expression overlooked. -/
theorem render_lone_iff (delimiters : Delimiters) (template : String) :
    (∀ evaluator value, render delimiters evaluator template = .ok value ↔
      ComesTo evaluator template (split delimiters template.toList)
        (∃ inner, Encloses delimiters template.toList inner) value) ∧
    ((∀ evaluator value, render delimiters evaluator template = .ok value →
      ComesTo evaluator template (split delimiters template.toList)
        (IsLone (split delimiters template.toList)) value) ↔
      ¬Overruns delimiters template.toList ∧ ¬Overlooked delimiters template.toList) := by
  refine ⟨fun evaluator value => render_eq_ok_iff, ?_⟩
  rw [← encloses_iff_isLone_iff]
  simp only [render_eq_ok_iff]
  by_cases plain : (split delimiters template.toList).filterMap expression? = []
  · have agree : (∃ inner, Encloses delimiters template.toList inner) ↔
        IsLone (split delimiters template.toList) := by
      refine iff_of_false ?_ ?_
      · rintro ⟨inner, encloses⟩
        exact expressions_ne_nil_iff.mpr encloses.holdsExpression plain
      · rintro ⟨⟨expression, single⟩, _⟩
        rw [plain] at single
        cases single
    refine iff_of_true (fun evaluator value comes => ?_) agree
    rwa [← propext agree]
  · exact comesTo_congr_iff plain

/-- A brace behind the expression is lost. -/
theorem not_render_lone :
    ¬∀ (delimiters : Delimiters) (evaluator : Evaluator) (template : String) (value : Value),
      render delimiters evaluator template = .ok value →
        ComesTo evaluator template (split delimiters template.toList)
          (IsLone (split delimiters template.toList)) value := by
  intro always
  have segments : split .curly "\x7b\x7b n \x7d\x7d\x7d".toList =
      [.expression ['n'], .literal ['\x7d']] := by cbv
  have comes := always .curly (fun _ => some (.int 5)) "\x7b\x7b n \x7d\x7d\x7d" (.int 5) (by cbv)
  rw [segments] at comes
  generalize same : Value.int 5 = value at comes
  cases comes with
  | plain | filled => cases same
  | native _ alone =>
    have blank := alone.2 ['\x7d'] (by simp)
    exact absurd (blank '\x7d' List.mem_cons_self) (by decide)

end Template

end StepQuery
