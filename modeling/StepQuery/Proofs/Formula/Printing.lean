import StepQuery.Proofs.Formula.Reading

/-!
Printing formulas.  A formula is written so that the grammar derives its tree from what is written:
every operation stands in parentheses, and a minus stands in front of an operand.  So printing and
reading keep the structure of every formula whose literals they keep.
-/

namespace StepQuery

namespace Formula

/-- What is written for a formula is read as the same tree. -/
def Survives (formula : Formula) : Prop :=
  ∃ read, parse (String.ofList formula.write) = .ok read ∧ read.tree = formula.tree

theorem survives_iff {formula : Formula} :
    Survives formula ↔ Derives Written .sum formula.write formula.tree := by
  rw [Survives, exists_parse_iff, String.toList_ofList]

instance (formula : Formula) : Decidable (Survives formula) :=
  match read : parse (String.ofList formula.write) with
  | .error _ => .isFalse fun ⟨_, other, _⟩ => nomatch read.symm.trans other
  | .ok found => decidable_of_iff (found.tree = formula.tree)
    ⟨fun same => ⟨found, read, same⟩, fun ⟨_, other, same⟩ => by
      cases read.symm.trans other
      exact same⟩

/-- The numbers and texts of a formula. -/
def literals : Formula → List Formula
  | .number span literal => [.number span literal]
  | .text span value => [.text span value]
  | .column .. => []
  | .negate _ operand => operand.literals
  | .binary _ _ left right => left.literals ++ right.literals

/-- What holds of every tree of a formula: the names of columns can be spelled, and a minus is taken
into a number. -/
def Tree.Canonical : Tree → Prop
  | .number _ | .text _ => True
  | .column name => ∃ text, Spells (.column name) text
  | .negate operand => operand.Canonical ∧ ∀ literal, operand ≠ .number literal
  | .binary _ left right => left.Canonical ∧ right.Canonical

theorem Tree.Canonical.negated {tree : Tree} (canonical : tree.Canonical) : tree.negated.Canonical := by
  cases tree with
  | number => trivial
  | text | column | negate | binary => exact ⟨canonical, nofun⟩

theorem Tree.negated_of_not_number {tree : Tree} (other : ∀ literal, tree ≠ .number literal) :
    tree.negated = .negate tree := by
  cases tree with
  | number literal => exact absurd rfl (other literal)
  | text | column | negate | binary => rfl

theorem Derives.canonical {level : Level} {text : List Char} {tree : Tree}
    (derived : Derives Written level text tree) : tree.Canonical := by
  induction derived with
  | sum _ inductionHypothesis | product _ inductionHypothesis | signed _ inductionHypothesis
  | parentheses _ _ _ inductionHypothesis => exact inductionHypothesis
  | addition _ _ _ _ former latter | multiplication _ _ _ _ former latter => exact ⟨former, latter⟩
  | minus _ _ inductionHypothesis => exact inductionHypothesis.negated
  | number | text => trivial
  | column word =>
    obtain ⟨_, spelling, _, _, spells, _⟩ := word
    exact ⟨spelling, spells⟩

theorem canonical_of_parse {text : String} {formula : Formula} (read : parse text = .ok formula) :
    formula.tree.Canonical :=
  (exists_parse_iff.mp ⟨formula, read, rfl⟩).canonical

theorem written_column {span : Span} {name : String} {text : List Char}
    (spells : Spells (.column name) text) :
    Written (.column name) (write (.column span name)) := by
  rw [write]
  cases spells with
  | word isWord =>
    rw [String.toList_ofList, if_pos isWord]
    exact (Spells.word isWord).written
  | @bracketed name present closed =>
    rw [String.toList_ofList]
    split
    next isWord => exact (Spells.word isWord).written
    next => exact (Spells.bracketed present closed).written

theorem written_operator (operator : Operator) :
    Written (.operator operator) [' ', operator.sign, ' '] :=
  have blank : Blank [' '] := List.forall_mem_singleton.mpr rfl
  ⟨[' '], _, [' '], blank, .operator operator, blank, rfl⟩

/-- What is written for an operation is derived in the parentheses around it, whichever level the
operation has. -/
theorem derives_binary {operator : Operator} {first second : List Char} {left right : Tree}
    (former : Derives Written .signed first left) (latter : Derives Written .signed second right) :
    Derives Written .signed ('(' :: first ++ ' ' :: operator.sign :: ' ' :: second ++ [')'])
      (.binary operator left right) := by
  have inner : Derives Written .sum (first ++ [' ', operator.sign, ' '] ++ second)
      (.binary operator left right) := by
    cases level : isSum operator with
    | true =>
      exact .addition level (.sum (.product former)) (written_operator operator) (.product latter)
    | false =>
      exact .sum (.multiplication level (.product former) (written_operator operator) latter)
  have whole := Derives.parentheses Spells.opening.written inner Spells.closing.written
  simpa using Derives.signed whole

/-- What is written for a formula is derived as a signed operand, so that it can stand under a minus and
on both sides of every operator. -/
theorem derives_write {formula : Formula} (canonical : formula.tree.Canonical)
    (literals : ∀ literal ∈ formula.literals, Survives literal) :
    Derives Written .signed formula.write formula.tree := by
  induction formula with
  | number span literal | text span value =>
    exact (survives_iff.mp (literals _ List.mem_cons_self)).signed_of_not_binary nofun
  | column span name =>
    obtain ⟨text, spells⟩ := canonical
    exact .signed (.column (written_column spells))
  | negate span operand inductionHypothesis =>
    obtain ⟨canonical, other⟩ := canonical
    have derived := inductionHypothesis canonical literals
    rw [tree, ← Tree.negated_of_not_number other]
    exact .minus (Spells.operator .subtract).written derived
  | binary span operator left right former latter =>
    obtain ⟨first, second⟩ := List.forall_mem_append.mp literals
    exact derives_binary (former canonical.1 first) (latter canonical.2 second)

/-- Printing and reading keep the structure of every formula whose literals they keep. -/
theorem survives_of_literals {text : String} {formula : Formula} (read : parse text = .ok formula)
    (literals : ∀ literal ∈ formula.literals, Survives literal) : Survives formula :=
  survives_iff.mpr (.sum (.product (derives_write (canonical_of_parse read) literals)))

theorem survives_of_literals_nested : ∃ formula,
    parse "-(a - [b c]) * 'it\\'s' % -2" = .ok formula ∧ formula.literals.length = 2 ∧
      (∀ literal ∈ formula.literals, Survives literal) ∧ Survives formula := by
  have checked : (match parse "-(a - [b c]) * 'it\\'s' % -2" with
      | .error _ => false
      | .ok formula => decide (formula.literals.length = 2 ∧
          ∀ literal ∈ formula.literals, Survives literal)) = true := by
    decide +kernel
  cases read : parse "-(a - [b c]) * 'it\\'s' % -2" with
  | error failure =>
    rw [read] at checked
    cases checked
  | ok formula =>
    rw [read] at checked
    obtain ⟨count, literals⟩ := of_decide_eq_true checked
    exact ⟨formula, rfl, count, literals, survives_of_literals read literals⟩

end Formula

end StepQuery
