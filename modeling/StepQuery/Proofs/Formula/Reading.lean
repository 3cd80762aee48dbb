import StepQuery.Proofs.Formula.Spelling

/-!
Reading formulas from texts.  Splitting takes a text apart into stretches, one for each token, so that
what is derived from the tokens is derived from the text; and where the grammar derives a formula, the
text is split into the words of the derivation.  Together with the reading of tokens this says which
texts are formulas, what they mean, and how the others fail.
-/

namespace StepQuery

namespace Formula

section Splitting

variable {text : List Char} {offset : Nat}

/-- Passing over characters that belong to a token leaves what stands behind them. -/
theorem scan_skip (offset skip : Nat) (text : List Char) :
    Token.scan offset skip text = Token.scan (offset + skip) 0 (text.drop skip) := by
  induction text generalizing offset skip with
  | nil => rw [List.drop_nil, Token.scan, Token.scan]
  | cons character rest inductionHypothesis =>
    cases skip with
    | zero => rfl
    | succ skip =>
      rw [Token.scan, inductionHypothesis, List.drop_succ_cons, Nat.add_right_comm, Nat.add_assoc]

theorem scan_blank {blanks : List Char} (blank : Blank blanks) (offset : Nat) (text : List Char) :
    ∃ later, Token.scan offset 0 (blanks ++ text) = Token.scan later 0 text := by
  induction blanks generalizing offset with
  | nil => exact ⟨offset, rfl⟩
  | cons character rest inductionHypothesis =>
    obtain ⟨first, others⟩ := List.forall_mem_cons.mp blank
    rw [List.cons_append, Token.scan, if_pos first]
    exact inductionHypothesis others (offset + 1)

theorem scan_word {first : Char} (visible : Text.isBlank first = false) (offset : Nat)
    (rest : List Char) :
    Token.scan offset 0 (first :: rest) =
      ⟨(Token.wordAt offset first rest).1, first, ⟨offset, (Token.wordAt offset first rest).2⟩⟩ ::
        Token.scan (offset + 1 + ((Token.wordAt offset first rest).2 - 1)) 0
          (rest.drop ((Token.wordAt offset first rest).2 - 1)) := by
  rw [← scan_skip, Token.scan, if_neg (Bool.eq_false_iff.mp visible)]

/-- Blanks alone have no tokens. -/
theorem scan_eq_nil_iff : Token.scan offset 0 text = [] ↔ Blank text := by
  induction text generalizing offset with
  | nil => exact ⟨fun _ => nofun, fun _ => rfl⟩
  | cons character rest inductionHypothesis =>
    rw [Blank, List.forall_mem_cons]
    cases blank : Text.isBlank character with
    | true => rw [Token.scan, if_pos blank, inductionHypothesis, and_iff_right rfl, Blank]
    | false =>
      rw [scan_word blank]
      exact ⟨nofun, fun ⟨impossible, _⟩ => nomatch impossible⟩

end Splitting

section Soundness

/-- A text taken apart, each token with a stretch of its own that spells it unless it is at fault. -/
inductive Splits : List Token → List Char → Prop
  | nil : Splits [] []
  | cons {token tokens stretch text} (spelled : token.word.isFault = false → Written token.word stretch)
      (rest : Splits tokens text) : Splits (token :: tokens) (stretch ++ text)

theorem Splits.blank {token : Token} {tokens : List Token} {text : List Char} {character : Char}
    (splits : Splits (token :: tokens) text) (blank : Text.isBlank character) :
    Splits (token :: tokens) (character :: text) := by
  cases splits with
  | @cons _ _ stretch text spelled rest =>
    rw [← List.cons_append]
    refine .cons (fun sound => ?_) rest
    obtain ⟨before, spelling, after, blanks, spells, others, rfl⟩ := spelled sound
    exact ⟨character :: before, spelling, after, List.forall_mem_cons.mpr ⟨blank, blanks⟩, spells,
      others, rfl⟩

theorem spells_stretch {word : Word} {offset length : Nat} {first : Char} {rest : List Char}
    (found : Token.wordAt offset first rest = (word, length)) (sound : word.isFault = false) :
    Spells word (first :: rest.take (length - 1)) := by
  obtain ⟨positive, spelled⟩ := spells_wordAt found
  obtain ⟨spelling, others, spells, same, rfl⟩ := spelled sound
  cases spelling with
  | nil => cases positive
  | cons head tail =>
    cases same
    simpa using spells

/-- Splitting accounts for the whole of a text that has a token. -/
theorem splits_scan (text : List Char) : ∀ offset, Token.scan offset 0 text ≠ [] →
    Splits (Token.scan offset 0 text) text := by
  induction length : text.length using Nat.strong_induction_on generalizing text with
  | _ length inductionHypothesis =>
    intro offset present
    cases text with
    | nil => exact absurd rfl present
    | cons first rest =>
      subst length
      cases blank : Text.isBlank first with
      | true =>
        rw [Token.scan, if_pos blank] at present ⊢
        obtain ⟨token, tokens, same⟩ := List.exists_cons_of_ne_nil present
        have splits := inductionHypothesis rest.length (Nat.lt_succ_self _) rest rfl _ present
        rw [same] at splits ⊢
        exact splits.blank blank
      | false =>
        have read := scan_word blank offset rest
        cases found : Token.wordAt offset first rest with
        | mk word size =>
          rw [read, found]
          dsimp only
          have parts : (first :: rest.take (size - 1)) ++ rest.drop (size - 1) = first :: rest := by
            rw [List.cons_append, List.take_append_drop]
          by_cases last : Token.scan (offset + 1 + (size - 1)) 0 (rest.drop (size - 1)) = []
          · -- The blanks at the end go to the last token.
            rw [last, ← List.append_nil (first :: rest)]
            refine .cons (fun sound => ?_) .nil
            exact ⟨[], _, _, nofun, spells_stretch found sound, scan_eq_nil_iff.mp last, parts.symm⟩
          · rw [← parts]
            refine .cons (fun sound => (spells_stretch found sound).written) ?_
            have shorter : (rest.drop (size - 1)).length < (first :: rest).length := by
              rw [List.length_drop, List.length_cons]
              omega
            exact inductionHypothesis _ shorter _ rfl _ last

/-- A text has a piece in front with a property, and a rest that is split into tokens. -/
def Starts (property : List Char → Prop) (rest : List Token) (text : List Char) : Prop :=
  ∃ front back, text = front ++ back ∧ property front ∧ Splits rest back

theorem Starts.imp {property other : List Char → Prop} {rest : List Token} {text : List Char}
    (implies : ∀ {front}, property front → other front) (starts : Starts property rest text) :
    Starts other rest text :=
  let ⟨front, back, same, holds, splits⟩ := starts
  ⟨front, back, same, implies holds, splits⟩

variable {level : Level} {used rest : List Token} {text : List Char} {tree : Tree}

theorem Splits.starts {word : Word} (splits : Splits (used ++ rest) text) (is : Token.Is word used)
    (sound : word.isFault = false) : Starts (Written word) rest text := by
  obtain ⟨token, rfl, rfl⟩ := is
  cases splits with
  | cons spelled others => exact ⟨_, _, rfl, spelled sound, others⟩

/-- What is derived from tokens is derived from the text that they take. -/
theorem Derives.starts (derived : Derives Token.Is level used tree) :
    ∀ {rest text}, Splits (used ++ rest) text → Starts (Derives Written level · tree) rest text := by
  induction derived with
  | sum _ inductionHypothesis => exact fun splits => (inductionHypothesis splits).imp .sum
  | product _ inductionHypothesis => exact fun splits => (inductionHypothesis splits).imp .product
  | signed _ inductionHypothesis => exact fun splits => (inductionHypothesis splits).imp .signed
  | number word => exact fun splits => (splits.starts word rfl).imp .number
  | text word => exact fun splits => (splits.starts word rfl).imp .text
  | column word => exact fun splits => (splits.starts word rfl).imp .column
  | addition level _ between _ former latter =>
    intro rest text splits
    rw [List.append_assoc, List.append_assoc] at splits
    obtain ⟨first, _, rfl, left, splits⟩ := former splits
    obtain ⟨sign, _, rfl, operator, splits⟩ := splits.starts between rfl
    obtain ⟨second, back, rfl, right, splits⟩ := latter splits
    exact ⟨first ++ sign ++ second, back, by simp, .addition level left operator right, splits⟩
  | multiplication level _ between _ former latter =>
    intro rest text splits
    rw [List.append_assoc, List.append_assoc] at splits
    obtain ⟨first, _, rfl, left, splits⟩ := former splits
    obtain ⟨sign, _, rfl, operator, splits⟩ := splits.starts between rfl
    obtain ⟨second, back, rfl, right, splits⟩ := latter splits
    exact ⟨first ++ sign ++ second, back, by simp, .multiplication level left operator right, splits⟩
  | minus before _ inductionHypothesis =>
    intro rest text splits
    rw [List.append_assoc] at splits
    obtain ⟨sign, _, rfl, operator, splits⟩ := splits.starts before rfl
    obtain ⟨front, back, rfl, derived, splits⟩ := inductionHypothesis splits
    exact ⟨sign ++ front, back, by simp, .minus operator derived, splits⟩
  | parentheses opening _ closing inductionHypothesis =>
    intro rest text splits
    rw [List.append_assoc, List.append_assoc] at splits
    obtain ⟨before, _, rfl, opens, splits⟩ := splits.starts opening rfl
    obtain ⟨inner, _, rfl, derived, splits⟩ := inductionHypothesis splits
    obtain ⟨after, back, rfl, closes, splits⟩ := splits.starts closing rfl
    exact ⟨before ++ inner ++ after, back, by simp, .parentheses opens derived closes, splits⟩

end Soundness

section Completeness

variable {rest : List Char}

theorem continuesWord_of_isBlank {character : Char} (blank : Text.isBlank character) :
    continuesWord character = false := by
  by_contra continues
  rcases Bool.or_eq_true _ _ ▸ Bool.not_eq_false _ ▸ continues with begins | digit
  · rw [isBlank_of_beginsWord begins] at blank
    cases blank
  · rw [isBlank_of_isDigit digit] at blank
    cases blank

theorem Delimited.append_blank {blanks : List Char} (blank : Blank blanks) (ends : Delimited rest) :
    Delimited (blanks ++ rest) := by
  cases blanks with
  | nil => exact ends
  | cons first others =>
    rintro _ ⟨⟩
    have isBlank := blank first List.mem_cons_self
    exact ⟨continuesWord_of_isBlank isBlank, ne_of_holds isBlank (by decide)⟩

theorem delimited_operator {operator : Operator} {text : List Char}
    (written : Written (.operator operator) text) (rest : List Char) : Delimited (text ++ rest) := by
  obtain ⟨before, _, after, blank, ⟨⟩, _, rfl⟩ := written
  rw [List.append_assoc, List.append_assoc]
  refine Delimited.append_blank blank ?_
  rintro _ ⟨⟩
  exact ⟨continuesWord_sign operator, by cases operator <;> decide⟩

theorem delimited_closing {text : List Char} (written : Written .closing text) (rest : List Char) :
    Delimited (text ++ rest) := by
  obtain ⟨before, _, after, blank, ⟨⟩, _, rfl⟩ := written
  rw [List.append_assoc, List.append_assoc]
  refine Delimited.append_blank blank ?_
  rintro _ ⟨⟩
  exact ⟨by decide +kernel, by decide⟩

/-- In front of a rest a text is split into tokens with a property. -/
def SplitsOff (property : List Token → Prop) (text rest : List Char) : Prop :=
  ∀ offset, ∃ used later, property used ∧
    Token.scan offset 0 (text ++ rest) = used ++ Token.scan later 0 rest

theorem SplitsOff.imp {property other : List Token → Prop} {text : List Char}
    (implies : ∀ {used}, property used → other used) (splitsOff : SplitsOff property text rest) :
    SplitsOff other text rest := fun offset =>
  let ⟨used, later, holds, same⟩ := splitsOff offset
  ⟨used, later, implies holds, same⟩

theorem SplitsOff.append {property other both : List Token → Prop} {text more : List Char}
    (join : ∀ {used used'}, property used → other used' → both (used ++ used'))
    (former : SplitsOff property text (more ++ rest)) (latter : SplitsOff other more rest) :
    SplitsOff both (text ++ more) rest := by
  intro offset
  obtain ⟨used, next, holds, same⟩ := former offset
  obtain ⟨used', later, holds', same'⟩ := latter next
  refine ⟨used ++ used', later, join holds holds', ?_⟩
  rw [List.append_assoc, same, same', List.append_assoc]

theorem SplitsOff.append_append {first second third all : List Token → Prop}
    {text middle last : List Char}
    (join : ∀ {a b c}, first a → second b → third c → all (a ++ b ++ c))
    (former : SplitsOff first text (middle ++ (last ++ rest)))
    (between : SplitsOff second middle (last ++ rest)) (latter : SplitsOff third last rest) :
    SplitsOff all (text ++ middle ++ last) rest := by
  have begun : SplitsOff (fun used => ∃ a b, used = a ++ b ∧ first a ∧ second b) (text ++ middle)
      (last ++ rest) := former.append (fun holds holds' => ⟨_, _, rfl, holds, holds'⟩) between
  refine begun.append ?_ latter
  rintro _ c ⟨a, b, rfl, holds, holds'⟩ holds''
  exact join holds holds' holds''

theorem Written.splitsOff {word : Word} {text : List Char} (written : Written word text)
    (ends : word.runsOn → Delimited rest) : SplitsOff (Token.Is word) text rest := by
  intro offset
  obtain ⟨before, spelling, after, blank, spells, behind, rfl⟩ := written
  have blankEnds : word.runsOn → Delimited (after ++ rest) := fun runs =>
    (ends runs).append_blank behind
  obtain ⟨first, others, rfl, visible, found⟩ := wordAt_append spells blankEnds
  obtain ⟨start, skipped⟩ := scan_blank blank offset (first :: others ++ (after ++ rest))
  have read := scan_word visible start (others ++ (after ++ rest))
  obtain ⟨later, passed⟩ := scan_blank behind (start + 1 + ((first :: others).length - 1)) rest
  have dropped : (others ++ (after ++ rest)).drop ((first :: others).length - 1) = after ++ rest :=
    List.drop_left
  rw [found start, dropped, passed] at read
  refine ⟨_, later, ⟨⟨word, first, ⟨start, (first :: others).length⟩⟩, rfl, rfl⟩, ?_⟩
  rw [List.append_assoc, List.append_assoc, skipped, List.cons_append, read, List.singleton_append]

/-- In front of a rest that does not carry it on a formula is split into words that derive it. -/
theorem Derives.splitsOff {level : Level} {text : List Char} {tree : Tree}
    (derived : Derives Written level text tree) :
    ∀ {rest}, Delimited rest → SplitsOff (Derives Token.Is level · tree) text rest := by
  induction derived with
  | sum _ inductionHypothesis => exact fun ends => (inductionHypothesis ends).imp .sum
  | product _ inductionHypothesis => exact fun ends => (inductionHypothesis ends).imp .product
  | signed _ inductionHypothesis => exact fun ends => (inductionHypothesis ends).imp .signed
  | number word => exact fun ends => (word.splitsOff fun _ => ends).imp .number
  | text word => exact fun ends => (word.splitsOff fun _ => ends).imp .text
  | column word => exact fun ends => (word.splitsOff fun _ => ends).imp .column
  | addition level _ between _ former latter =>
    exact fun ends => .append_append (.addition level) (former (delimited_operator between _))
      (between.splitsOff nofun) (latter ends)
  | multiplication level _ between _ former latter =>
    exact fun ends => .append_append (.multiplication level) (former (delimited_operator between _))
      (between.splitsOff nofun) (latter ends)
  | minus before _ inductionHypothesis =>
    exact fun ends => .append .minus (before.splitsOff nofun) (inductionHypothesis ends)
  | parentheses opening _ closing inductionHypothesis =>
    exact fun ends => .append_append .parentheses (opening.splitsOff nofun)
      (inductionHypothesis (delimited_closing closing _)) (closing.splitsOff nofun)

end Completeness

section Texts

variable {text : String} {tree : Tree} {failure : Failure}

theorem parse_eq_ok_iff {token : Token} {tokens : List Token} {formula : Formula}
    (scan : Token.scan 0 0 text.toList = token :: tokens) :
    parse text = .ok formula ↔
      sum text.toList.length (4 * (token :: tokens).length + 4) (token :: tokens) = .ok (formula, []) := by
  rw [parse, scan]
  constructor
  · intro read
    obtain ⟨⟨found, rest⟩, summed, same⟩ := Attempt.bind_eq_ok.mp read
    cases rest with
    | nil =>
      cases same
      exact summed
    | cons => cases same
  · intro summed
    exact Attempt.bind_eq_ok.mpr ⟨(formula, []), summed, rfl⟩

theorem of_parse_eq_error {token : Token} {tokens : List Token}
    (scan : Token.scan 0 0 text.toList = token :: tokens) (failed : parse text = .error failure) :
    sum text.toList.length (4 * (token :: tokens).length + 4) (token :: tokens) = .error failure ∨
      ∃ other, (unexpected other : Attempt Formula) = .error failure := by
  rw [parse, scan] at failed
  rcases Attempt.bind_eq_error.mp failed with early | ⟨⟨formula, rest⟩, _, late⟩
  · exact .inl early
  · cases rest with
    | nil => cases late
    | cons other _ => exact .inr ⟨other, late⟩

/-- A text is read as a formula just if the grammar derives it. -/
theorem exists_parse_iff :
    (∃ formula, parse text = .ok formula ∧ formula.tree = tree) ↔
      Derives Written .sum text.toList tree := by
  constructor
  · rintro ⟨formula, read, rfl⟩
    cases scan : Token.scan 0 0 text.toList with
    | nil =>
      rw [parse, scan] at read
      cases read
    | cons token tokens =>
      obtain ⟨used, all, reads⟩ := consumes_sum ((parse_eq_ok_iff scan).mp read)
      have splits := splits_scan text.toList 0 (by rw [scan]; exact List.cons_ne_nil _ _)
      rw [scan, all] at splits
      obtain ⟨front, back, same, derived, ⟨⟩⟩ := reads.derives.starts splits
      rwa [same, List.append_nil]
  · intro derived
    have finished : Delimited [] := nofun
    obtain ⟨used, later, tokens, scan⟩ := derived.splitsOff finished 0
    rw [List.append_nil, Token.scan, List.append_nil] at scan
    obtain ⟨token, others, rfl⟩ := List.exists_cons_of_length_pos tokens.used_pos
    have reaches : Reaches text.toList.length .sum (token :: others) tree := reaches_of_derives tokens
    obtain ⟨formula, later, same, deep, read⟩ :=
      reaches [] (4 * (token :: others).length + 4) (by rintro _ ⟨⟩) (Nat.le_add_right _ _)
    obtain ⟨later, rfl⟩ : ∃ less, later = less + 1 := ⟨later - 1, by omega⟩
    rw [List.append_nil] at read
    refine ⟨formula, (parse_eq_ok_iff scan).mpr ?_, same⟩
    rw [read, sumRest_of_ends formula (by rintro _ ⟨⟩)]

/-- Only blanks have no formula in them; the other texts that are none have a place where they go
wrong. -/
theorem parse_failure (failed : parse text = .error failure) :
    (Blank text.toList ∧ failure = .refusal [] .emptyFormula) ∨
      (¬Blank text.toList ∧ IsSyntaxError failure) := by
  cases scan : Token.scan 0 0 text.toList with
  | nil =>
    rw [parse, scan] at failed
    cases failed
    exact .inl ⟨scan_eq_nil_iff.mp scan, rfl⟩
  | cons token tokens =>
    have visible : ¬Blank text.toList := fun blank =>
      absurd (scan_eq_nil_iff.mpr blank) (by rw [scan]; exact List.cons_ne_nil _ _)
    refine .inr ⟨visible, ?_⟩
    rcases of_parse_eq_error scan failed with early | ⟨other, late⟩
    · exact isSyntaxError_sum (Nat.le_refl _) early
    · cases late
      exact ⟨_, _, rfl⟩

/-- Reading a text gives the tree that the grammar derives from it; a text from which it derives none
is refused.  Only blanks count as an empty formula, so that the bound on the recursion, which gives the
same answer, is never reached. -/
theorem parse_follows_grammar (text : String) :
    (∀ tree, (∃ formula, parse text = .ok formula ∧ formula.tree = tree) ↔
      Derives Written .sum text.toList tree) ∧
    ((∃ failure, parse text = .error failure ∧ failure.kinds = [.invalidFormula] ∧
        (failure = .refusal [] .emptyFormula ↔ Blank text.toList)) ↔
      ∀ tree, ¬Derives Written .sum text.toList tree) := by
  refine ⟨fun tree => exists_parse_iff, ?_, ?_⟩
  · rintro ⟨failure, failed, _⟩ tree derived
    obtain ⟨formula, read, _⟩ := exists_parse_iff.mpr derived
    rw [failed] at read
    cases read
  · intro none
    cases read : parse text with
    | ok formula => exact absurd (exists_parse_iff.mp ⟨formula, read, rfl⟩) (none formula.tree)
    | error failure =>
      refine ⟨failure, rfl, ?_⟩
      rcases parse_failure read with ⟨blank, rfl⟩ | ⟨visible, problem, position, rfl⟩
      · exact ⟨rfl, fun _ => blank, fun _ => rfl⟩
      · exact ⟨rfl, nofun, fun blank => absurd blank visible⟩

end Texts

end Formula

end StepQuery
