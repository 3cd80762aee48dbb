import StepQuery.Proofs.Formula.Reading

/-!
The places of the parts of a formula.  The tokens of a text stand in it one behind the other, each
spelled where its span says.  A formula begins and ends with tokens that it was read from, so that the
spans of its parts are nested and ordered as the tokens are.
-/

namespace StepQuery

namespace Span

/-- The characters of a text in a span. -/
def slice (span : Span) (text : List Char) : List Char := (text.drop span.offset).take span.length

def Within (inner outer : Span) : Prop := outer.offset ≤ inner.offset ∧ inner.finish ≤ outer.finish

def Precedes (former latter : Span) : Prop := former.finish ≤ latter.offset

variable {inner outer : Span} {start finish : Nat}

theorem offset_le_finish (span : Span) : span.offset ≤ span.finish := Nat.le_add_right _ _

theorem finish_between (ordered : start ≤ finish) : (between start finish).finish = finish :=
  Nat.add_sub_of_le ordered

theorem within_between (starts : start ≤ inner.offset) (finishes : inner.finish ≤ finish) :
    inner.Within (between start finish) := by
  refine ⟨starts, ?_⟩
  rwa [finish_between (starts.trans (inner.offset_le_finish.trans finishes))]

theorem Within.length_pos (within : inner.Within outer) (present : 0 < inner.length) :
    0 < outer.length := by
  obtain ⟨starts, finishes⟩ := within
  simp only [finish] at finishes
  omega

end Span

namespace Formula

/-- A formula and the formulas in it. -/
def nodes : Formula → List Formula
  | .negate span operand => .negate span operand :: nodes operand
  | .binary span operator left right => .binary span operator left right :: (nodes left ++ nodes right)
  | formula => [formula]

/-- What the place of a node has to do with its parts: columns and texts can be read from their places
alone, and operations contain their operands. -/
def IsNested (text : List Char) : Formula → Prop
  | .number .. => True
  | .text span value => parse (String.ofList (span.slice text)) = .ok (.text ⟨0, span.length⟩ value)
  | .column span name => parse (String.ofList (span.slice text)) = .ok (.column ⟨0, span.length⟩ name)
  | .negate span operand => operand.span.Within span
  | .binary span operator left right =>
    left.span.Within span ∧ right.span.Within span ∧
      ∃ place, left.span.finish ≤ place ∧ place < right.span.offset ∧ text[place]? = some operator.sign

/-- A node that stands inside a text and is placed with its parts as it should be. -/
structure WellPlaced (text : List Char) (node : Formula) : Prop where
  inside : node.span.finish ≤ text.length
  present : 0 < node.span.length
  column : node.span.column = node.span.offset + 1
  nested : node.IsNested text

/-- A token that is spelled in a text where its span says. -/
structure Token.Stands (text : List Char) (token : Token) : Prop where
  inside : token.span.finish ≤ text.length
  present : 0 < token.span.length
  spelled : Spells token.word (token.span.slice text)

/-- Tokens that stand in a text one behind the other, unless they are at fault. -/
structure Laid (text : List Char) (tokens : List Token) : Prop where
  ordered : tokens.Pairwise fun former latter => former.span.Precedes latter.span
  stands : ∀ token ∈ tokens, token.word.isFault = false → token.Stands text

/-- A formula whose parts have their places, and which begins and ends with one of some tokens. -/
structure Placed (text : List Char) (tokens : List Token) (formula : Formula) : Prop where
  begins : ∃ token ∈ tokens, token.span.offset = formula.span.offset
  ends : ∃ token ∈ tokens, token.span.finish = formula.span.finish
  nodes : ∀ node ∈ formula.nodes, node.WellPlaced text

theorem mem_nodes (formula : Formula) : formula ∈ formula.nodes := by
  cases formula <;> exact List.mem_cons_self

section Tokens

variable {text : List Char} {former latter : List Token}

theorem laid_append_iff : Laid text (former ++ latter) ↔ Laid text former ∧ Laid text latter ∧
    ∀ token ∈ former, ∀ other ∈ latter, token.span.Precedes other.span := by
  constructor
  · rintro ⟨ordered, stands⟩
    obtain ⟨before, behind, across⟩ := List.pairwise_append.mp ordered
    exact ⟨⟨before, fun token member => stands token (List.mem_append_left _ member)⟩,
      ⟨behind, fun token member => stands token (List.mem_append_right _ member)⟩, across⟩
  · rintro ⟨⟨before, stands⟩, ⟨behind, stands'⟩, across⟩
    refine ⟨List.pairwise_append.mpr ⟨before, behind, across⟩, fun token member => ?_⟩
    exact (List.mem_append.mp member).elim (stands token) (stands' token)

theorem stands_of_wordAt {offset size : Nat} {first : Char} {others : List Char} {word : Word}
    (rest : text.drop offset = first :: others)
    (found : Token.wordAt offset first others = (word, size)) (sound : word.isFault = false) :
    Token.Stands text ⟨word, first, ⟨offset, size⟩⟩ := by
  obtain ⟨present, spelled⟩ := spells_wordAt found
  obtain ⟨spelling, after, spells, same, rfl⟩ := spelled sound
  have bounds : spelling.length + after.length = text.length - offset := by
    rw [← List.length_append, ← same, ← rest, List.length_drop]
  refine ⟨?_, present, ?_⟩
  · simp only [Span.finish]
    omega
  · rw [Span.slice, rest, same, List.take_left]
    exact spells

/-- Splitting lays the tokens of a text out in it. -/
theorem laid_scan (text : List Char) (offset : Nat) :
    Laid text (Token.scan offset 0 (text.drop offset)) ∧
      ∀ token ∈ Token.scan offset 0 (text.drop offset), offset ≤ token.span.offset := by
  induction remaining : text.length - offset using Nat.strong_induction_on generalizing offset with
  | _ bound inductionHypothesis =>
    subst remaining
    cases rest : text.drop offset with
    | nil => exact ⟨⟨.nil, nofun⟩, nofun⟩
    | cons first others =>
      have behind : ∀ passed, others.drop passed = text.drop (offset + 1 + passed) := by
        intro passed
        rw [← List.drop_drop, ← List.drop_drop, rest, List.drop_one, List.tail_cons]
      have bounds : (first :: others).length = text.length - offset := by rw [← rest, List.length_drop]
      rw [List.length_cons] at bounds
      cases blank : Text.isBlank first with
      | true =>
        obtain ⟨laid, later⟩ := inductionHypothesis _ (by omega) (offset + 1) rfl
        rw [Token.scan, if_pos blank, ← List.drop_zero (l := others), behind]
        exact ⟨laid, fun token member => (Nat.le_succ _).trans (later token member)⟩
      | false =>
        rw [scan_word blank, behind]
        generalize found : Token.wordAt offset first others = word
        obtain ⟨word, size⟩ := word
        have present := (spells_wordAt found).1
        obtain ⟨laid, later⟩ := inductionHypothesis _ (by omega) (offset + 1 + (size - 1)) rfl
        dsimp only
        refine ⟨⟨List.pairwise_cons.mpr ⟨fun token member => ?_, laid.ordered⟩,
          List.forall_mem_cons.mpr ⟨stands_of_wordAt rest found, laid.stands⟩⟩,
          List.forall_mem_cons.mpr ⟨Nat.le_refl _, fun token member => ?_⟩⟩
        all_goals have next := later token member
        · simp only [Span.Precedes, Span.finish]
          omega
        · omega

end Tokens

section Reading

variable {text : List Char} {token : Token} {first second tokens : List Token}
  {formula left right : Formula}

/-- The spelling of a word has one token. -/
theorem scan_of_spells {word : Word} {spelling : List Char} (spells : Spells word spelling) :
    ∃ first, Token.scan 0 0 (String.ofList spelling).toList = [⟨word, first, ⟨0, spelling.length⟩⟩] := by
  have ends : word.runsOn → Delimited [] := fun _ => nofun
  obtain ⟨first, others, rfl, visible, found⟩ := wordAt_append spells ends
  have found := found 0
  rw [List.append_nil] at found
  refine ⟨first, ?_⟩
  rw [String.toList_ofList, scan_word visible, found]
  simp [Token.scan]

namespace Token.Stands

theorem scan_slice (stands : token.Stands text) :
    ∃ first, Token.scan 0 0 (String.ofList (token.span.slice text)).toList =
      [⟨token.word, first, ⟨0, token.span.length⟩⟩] := by
  have whole : (token.span.slice text).length = token.span.length := by
    have inside := stands.inside
    rw [Span.finish] at inside
    rw [Span.slice, List.length_take, List.length_drop]
    omega
  rw [← whole]
  exact scan_of_spells stands.spelled

theorem nested_text {value : String} (stands : token.Stands text) (word : token.word = .text value) :
    (Formula.text token.span value).IsNested text := by
  obtain ⟨first, scan⟩ := stands.scan_slice
  rw [word] at scan
  exact (parse_eq_ok_iff scan).mpr rfl

theorem nested_column {name : String} (stands : token.Stands text) (word : token.word = .column name) :
    (Formula.column token.span name).IsNested text := by
  obtain ⟨first, scan⟩ := stands.scan_slice
  rw [word] at scan
  exact (parse_eq_ok_iff scan).mpr rfl

/-- An operator is the first character of its token. -/
theorem sign {operator : Operator} (stands : token.Stands text) (word : token.word = .operator operator) :
    text[token.span.offset]? = some operator.sign := by
  have spelled := stands.spelled
  rw [word] at spelled
  have first : (token.span.slice text)[0]? = some operator.sign := by
    generalize token.span.slice text = slice at spelled
    cases spelled
    rfl
  rwa [Span.slice, List.getElem?_take_of_lt stands.present, List.getElem?_drop, Nat.add_zero] at first

/-- A formula that is one word has the place of its token. -/
theorem placed (stands : token.Stands text) (same : formula.span = token.span)
    (single : formula.nodes = [formula]) (nested : formula.IsNested text) :
    Placed text [token] formula := by
  refine ⟨⟨token, List.mem_singleton_self _, by rw [same]⟩,
    ⟨token, List.mem_singleton_self _, by rw [same]⟩, ?_⟩
  rw [single]
  rintro _ (_ | ⟨_, ⟨⟩⟩)
  exact ⟨by rw [same]; exact stands.inside, by rw [same]; exact stands.present, rfl, nested⟩

end Token.Stands

theorem Placed.mono (placed : Placed text first formula) (subset : first ⊆ tokens) :
    Placed text tokens formula where
  begins := let ⟨token, member, same⟩ := placed.begins; ⟨token, subset member, same⟩
  ends := let ⟨token, member, same⟩ := placed.ends; ⟨token, subset member, same⟩
  nodes := placed.nodes

/-- A formula stands before what all tokens that it was read from stand before. -/
theorem Placed.precedes {span : Span} (placed : Placed text tokens formula)
    (before : ∀ token ∈ tokens, token.span.Precedes span) : formula.span.Precedes span := by
  obtain ⟨token, member, same⟩ := placed.ends
  exact same.symm.trans_le (before token member)

theorem Placed.follows {span : Span} (placed : Placed text tokens formula)
    (behind : ∀ token ∈ tokens, span.Precedes token.span) : span.Precedes formula.span := by
  obtain ⟨token, member, same⟩ := placed.begins
  exact (behind token member).trans_eq same

/-- An operation reaches from the beginning of one operand to the end of the other. -/
theorem Placed.combine {operator : Operator} (former : Placed text first left)
    (latter : Placed text second right) (laid : Laid text (first ++ [token] ++ second))
    (between : token.word = .operator operator) :
    Placed text (first ++ [token] ++ second) (combine operator left right) := by
  obtain ⟨before, _, across⟩ := laid_append_iff.mp laid
  obtain ⟨_, signed, passed⟩ := laid_append_iff.mp before
  have own : token ∈ [token] := List.mem_singleton_self token
  have stands := signed.stands token own (by rw [between]; rfl)
  have leftBefore : left.span.Precedes token.span :=
    former.precedes fun other member => passed other member token own
  have rightBehind : token.span.Precedes right.span :=
    latter.follows fun other member => across token (List.mem_append_right _ own) other member
  have apart : left.span.finish ≤ right.span.offset :=
    leftBefore.trans (token.span.offset_le_finish.trans rightBehind)
  have leftWithin : left.span.Within (Formula.combine operator left right).span :=
    Span.within_between (Nat.le_refl _) (apart.trans right.span.offset_le_finish)
  have rightWithin : right.span.Within (Formula.combine operator left right).span :=
    Span.within_between (left.span.offset_le_finish.trans apart) (Nat.le_refl _)
  have whole : (Formula.combine operator left right).span.finish = right.span.finish :=
    Span.finish_between (left.span.offset_le_finish.trans (apart.trans right.span.offset_le_finish))
  have rightPlaced := latter.nodes right (mem_nodes right)
  have signBefore : token.span.offset < right.span.offset :=
    (Nat.lt_add_of_pos_right stands.present).trans_le rightBehind
  have wellPlaced : (Formula.combine operator left right).WellPlaced text :=
    ⟨whole ▸ rightPlaced.inside, rightWithin.length_pos rightPlaced.present, rfl, leftWithin, rightWithin,
      token.span.offset, leftBefore, signBefore, stands.sign between⟩
  obtain ⟨start, startMember, startSame⟩ := former.begins
  obtain ⟨finish, finishMember, finishSame⟩ := latter.ends
  exact ⟨⟨start, by simp [startMember], startSame⟩,
    ⟨finish, by simp [finishMember], finishSame.trans whole.symm⟩,
    List.forall_mem_cons.mpr ⟨wellPlaced, List.forall_mem_append.mpr ⟨former.nodes, latter.nodes⟩⟩⟩

theorem span_negation (start : Nat) (operand : Formula) :
    (negation start operand).span = Span.between start operand.span.finish := by
  cases operand <;> rfl

theorem nested_negation {start : Nat} (within : formula.span.Within (negation start formula).span) :
    (negation start formula).IsNested text := by
  cases formula with
  | number => trivial
  | text | column | negate | binary => exact within

theorem eq_or_mem_of_mem_nodes_negation {start : Nat} {node : Formula}
    (member : node ∈ (negation start formula).nodes) :
    node = negation start formula ∨ node ∈ formula.nodes := by
  cases formula with
  | number => exact .inl (List.mem_singleton.mp member)
  | text | column | negate | binary => exact List.mem_cons.mp member

/-- A negation reaches from its sign to the end of its operand. -/
theorem Placed.negation (operand : Placed text tokens formula)
    (laid : Laid text ([token] ++ tokens)) :
    Placed text ([token] ++ tokens) (negation token.span.offset formula) := by
  obtain ⟨_, _, across⟩ := laid_append_iff.mp laid
  have own : token ∈ [token] := List.mem_singleton_self token
  have behind : token.span.Precedes formula.span :=
    operand.follows fun other member => across token own other member
  have ordered : token.span.offset ≤ formula.span.offset := token.span.offset_le_finish.trans behind
  have within : formula.span.Within (Formula.negation token.span.offset formula).span := by
    rw [span_negation]
    exact Span.within_between ordered (Nat.le_refl _)
  have whole : (Formula.negation token.span.offset formula).span.finish = formula.span.finish := by
    rw [span_negation]
    exact Span.finish_between (ordered.trans formula.span.offset_le_finish)
  have placed := operand.nodes formula (mem_nodes formula)
  have wellPlaced : (Formula.negation token.span.offset formula).WellPlaced text :=
    ⟨whole ▸ placed.inside, within.length_pos placed.present, rfl, nested_negation within⟩
  obtain ⟨finish, finishMember, finishSame⟩ := operand.ends
  refine ⟨⟨token, List.mem_append_left _ own, by rw [span_negation]; rfl⟩,
    ⟨finish, List.mem_append_right _ finishMember, finishSame.trans whole.symm⟩, fun node member => ?_⟩
  obtain rfl | inner := eq_or_mem_of_mem_nodes_negation member
  · exact wellPlaced
  · exact operand.nodes node inner

theorem Reads.placed {level : Level} {used : List Token} (reads : Reads level used formula)
    (laid : Laid text used) : Placed text used formula := by
  induction reads with
  | sum _ inductionHypothesis | product _ inductionHypothesis | signed _ inductionHypothesis =>
    exact inductionHypothesis laid
  | addition _ _ between _ former latter | multiplication _ _ between _ former latter =>
    obtain ⟨before, behind, _⟩ := laid_append_iff.mp laid
    exact (former (laid_append_iff.mp before).1).combine (latter behind) laid between
  | minus _ _ inductionHypothesis =>
    exact (inductionHypothesis (laid_append_iff.mp laid).2.1).negation laid
  | number word =>
    have stands := laid.stands _ (List.mem_singleton_self _) (by rw [word]; rfl)
    exact stands.placed rfl rfl trivial
  | text word =>
    have stands := laid.stands _ (List.mem_singleton_self _) (by rw [word]; rfl)
    exact stands.placed rfl rfl (stands.nested_text word)
  | column word =>
    have stands := laid.stands _ (List.mem_singleton_self _) (by rw [word]; rfl)
    exact stands.placed rfl rfl (stands.nested_column word)
  | parentheses _ _ _ inductionHypothesis =>
    have inner := (laid_append_iff.mp (laid_append_iff.mp laid).1).2.1
    exact (inductionHypothesis inner).mono fun token member => by simp [member]

end Reading

/-- In a formula that is read from a text every node stands inside the text, operations contain their
operands, which stand in order with the operator between them, and columns and texts can be read from
their places alone. -/
theorem parse_well_placed {text : String} {formula : Formula} (read : parse text = .ok formula) :
    ∀ node ∈ formula.nodes, node.WellPlaced text.toList := by
  cases scan : Token.scan 0 0 text.toList with
  | nil =>
    rw [parse, scan] at read
    cases read
  | cons token tokens =>
    obtain ⟨used, all, reads⟩ := consumes_sum ((parse_eq_ok_iff scan).mp read)
    have laid := (laid_scan text.toList 0).1
    rw [List.drop_zero, scan, all, List.append_nil] at laid
    exact (reads.placed laid).nodes

/-- The span of an operation begins and ends with its operands, inside the parentheses around them. -/
theorem well_placed_parentheses : ∃ formula, parse "-(a) * ([b c] - 'd')" = .ok formula ∧
    formula.nodes.map span = [⟨0, 19⟩, ⟨0, 3⟩, ⟨2, 1⟩, ⟨8, 11⟩, ⟨8, 5⟩, ⟨16, 3⟩] ∧
    ∀ node ∈ formula.nodes, node.WellPlaced "-(a) * ([b c] - 'd')".toList := by
  have checked : (match parse "-(a) * ([b c] - 'd')" with
      | .error _ => false
      | .ok formula => decide
          (formula.nodes.map span = [⟨0, 19⟩, ⟨0, 3⟩, ⟨2, 1⟩, ⟨8, 11⟩, ⟨8, 5⟩, ⟨16, 3⟩])) = true := by
    decide +kernel
  cases read : parse "-(a) * ([b c] - 'd')" with
  | error failure =>
    rw [read] at checked
    cases checked
  | ok formula =>
    rw [read] at checked
    exact ⟨formula, rfl, of_decide_eq_true checked, parse_well_placed read⟩

end Formula

end StepQuery
