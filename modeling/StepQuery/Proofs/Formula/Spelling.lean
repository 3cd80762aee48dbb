import Mathlib.Data.List.TakeWhile
import StepQuery.Casting
import StepQuery.Proofs.Formula.Grammar
import StepQuery.Proofs.Number.Numeral
import StepQuery.Proofs.Text.Class

/-!
How the words of formulas are spelled.  A number is digits with at most one point, a text stands in
quotes, and a column is a word of its own or stands in brackets.  At the head of a text the splitter
finds the word that is spelled there, provided that what follows does not carry it on, and it finds no
word that is not spelled there.
-/

namespace StepQuery

open Text (isAsciiDigit)

theorem ne_of_holds {test : Char → Bool} {character other : Char} (holds : test character = true)
    (fails : test other = false) : character ≠ other := by
  rintro rfl
  rw [holds] at fails
  cases fails

theorem eq_of_dropWhile_ne {mark first : Char} {text rest : List Char}
    (behind : text.dropWhile (· != mark) = first :: rest) : first = mark := by
  have stops := List.head?_dropWhile_not (· != mark) text
  rw [behind] at stops
  simpa using stops

namespace Literal

/-- The literal of a number as it is read.  With a point it is a fraction, also when its value is
whole. -/
def ofNumber? (pointed : Bool) : Value → Option Literal
  | .int value => some (if pointed then .fraction value.toFloat else .whole value)
  | .double value => some (.fraction value)
  | _ => none

end Literal

namespace Formula

/-- ASCII digits, at least one, with at most one point among them. -/
structure IsFigure (text : List Char) : Prop where
  each : ∀ character ∈ text, isAsciiDigit character = true ∨ character = '.'
  point : text.count '.' ≤ 1
  digit : ∃ character ∈ text, isAsciiDigit character = true

/-- What stands between quotes, and the text it stands for: a backslash stands for the character after
it. -/
inductive Quoted : List Char → List Char → Prop
  | nil : Quoted [] []
  | plain {character body value} (quote : character ≠ '\'') (backslash : character ≠ '\\')
      (rest : Quoted body value) : Quoted (character :: body) (character :: value)
  | escaped {character body value} (rest : Quoted body value) :
      Quoted ('\\' :: character :: body) (character :: value)

/-- How a word is spelled. -/
inductive Spells : Word → List Char → Prop
  | number {text value literal} (figure : IsFigure text)
      (read : Casting.number (.text (String.ofList text)) = .ok value)
      (kind : Literal.ofNumber? (text.contains '.') value = some literal) :
      Spells (.number literal) text
  | text {body value} (quoted : Quoted body value) :
      Spells (.text (String.ofList value)) ('\'' :: (body ++ ['\'']))
  | word {name} (isWord : isWord name) : Spells (.column (String.ofList name)) name
  | bracketed {name} (present : name ≠ []) (closed : ']' ∉ name) :
      Spells (.column (String.ofList name)) ('[' :: (name ++ [']']))
  | operator (operator : Operator) : Spells (.operator operator) [operator.sign]
  | opening : Spells .opening ['(']
  | closing : Spells .closing [')']

/-- All characters are blank. -/
def Blank (text : List Char) : Prop := ∀ character ∈ text, Text.isBlank character = true

/-- A word with blanks around it. -/
def Written (word : Word) (text : List Char) : Prop :=
  ∃ before spelling after, Blank before ∧ Spells word spelling ∧ Blank after ∧
    text = before ++ spelling ++ after

theorem Spells.written {word : Word} {text : List Char} (spells : Spells word text) :
    Written word text :=
  ⟨[], text, [], nofun, spells, nofun, (List.append_nil _).symm⟩

section Figures

variable {text : List Char}

theorem isBlank_of_isDigit {character : Char} (digit : Text.isDigit character) :
    Text.isBlank character = false := by
  by_contra blank
  rw [Text.isDigit_of_isBlank (Bool.not_eq_false _ ▸ blank)] at digit
  cases digit

theorem IsFigure.trim (figure : IsFigure text) : Text.trim text = text := by
  have visible : ∀ character ∈ text, ¬Text.isBlank character = true := by
    intro character member
    rcases figure.each character member with digit | rfl
    · simp [isBlank_of_isDigit (Text.isDigit_of_isAsciiDigit digit)]
    · decide
  have kept : ∀ characters : List Char, (∀ character ∈ characters, character ∈ text) →
      characters.dropWhile Text.isBlank = characters := by
    intro characters within
    exact List.dropWhile_eq_self_iff.mpr fun present => visible _ (within _ (List.getElem_mem present))
  rw [Text.trim, kept text fun _ member => member, kept text.reverse fun _ => List.mem_reverse.mp,
    List.reverse_reverse]

/-- A figure is read as a literal as other texts are read as numbers. -/
theorem literal?_eq_some_iff (figure : IsFigure text) {literal : Literal} :
    Token.literal? text = some literal ↔ ∃ value,
      Casting.number (.text (String.ofList text)) = .ok value ∧
        Literal.ofNumber? (text.contains '.') value = some literal := by
  rw [Casting.number, Casting.decimal?, String.toList_ofList, figure.trim, Token.literal?]
  cases Decimal.ofText? text with
  | none => exact ⟨nofun, fun ⟨_, read, _⟩ => nomatch read⟩
  | some decimal =>
    cases whole : decimal.isInteger with
    | true => cases text.contains '.' <;> simp [Literal.ofNumber?, whole]
    | false => simp [Literal.ofNumber?, whole]

end Figures

end Formula

theorem AllDigits.isFigure {text : List Char} (digits : AllDigits text) (present : text ≠ []) :
    Formula.IsFigure text where
  each character member := .inl (digits character member)
  point := by
    rw [List.count_eq_zero_of_not_mem fun member => absurd (digits '.' member) (by decide)]
    exact Nat.zero_le 1
  digit :=
    let ⟨character, rest, same⟩ := List.exists_cons_of_ne_nil present
    ⟨character, same ▸ List.mem_cons_self, digits character (same ▸ List.mem_cons_self)⟩

/-- A point may stand anywhere among digits. -/
theorem AllDigits.isFigure_pointed {whole fraction : List Char} (digits : AllDigits (whole ++ fraction))
    (present : whole ++ fraction ≠ []) : Formula.IsFigure (whole ++ '.' :: fraction) := by
  obtain ⟨_, none, character, member, digit⟩ := digits.isFigure present
  refine ⟨?_, ?_, character, ?_, digit⟩
  · intro character member
    rcases List.mem_append.mp member with before | behind
    · exact .inl (digits character (List.mem_append_left _ before))
    · rcases List.mem_cons.mp behind with rfl | behind
      · exact .inr rfl
      · exact .inl (digits character (List.mem_append_right _ behind))
  · have absent : '.' ∉ whole ++ fraction := fun member => absurd (digits '.' member) (by decide)
    have zero := List.count_eq_zero_of_not_mem absent
    rw [List.count_append] at zero ⊢
    rw [List.count_cons_self]
    omega
  · rw [List.mem_append] at member ⊢
    exact member.imp_right (List.mem_cons_of_mem '.')

theorem Formula.IsFigure.cases {text : List Char} (figure : Formula.IsFigure text) :
    (AllDigits text ∧ text ≠ []) ∨ ∃ whole fraction, text = whole ++ '.' :: fraction ∧
      AllDigits (whole ++ fraction) ∧ whole ++ fraction ≠ [] := by
  obtain ⟨digit, found, isDigit⟩ := figure.digit
  by_cases member : '.' ∈ text
  · obtain ⟨whole, fraction, rfl⟩ := List.append_of_mem member
    have point := figure.point
    rw [List.count_append, List.count_cons_self] at point
    have digits : AllDigits (whole ++ fraction) := by
      intro character within
      have others : '.' ∉ whole ++ fraction := by
        rw [← List.count_eq_zero, List.count_append]
        omega
      refine (figure.each character ?_).resolve_right (ne_of_mem_of_not_mem within others)
      rw [List.mem_append] at within ⊢
      exact within.imp_right (List.mem_cons_of_mem '.')
    refine .inr ⟨whole, fraction, rfl, digits, List.ne_nil_of_mem (a := digit) ?_⟩
    rw [List.mem_append, List.mem_cons] at found
    rw [List.mem_append]
    exact found.imp_right fun behind => behind.resolve_left (ne_of_holds isDigit (by decide))
  · exact .inl ⟨fun character within => (figure.each character within).resolve_right
      (ne_of_mem_of_not_mem within member), List.ne_nil_of_mem found⟩

namespace Decimal

variable {text : List Char}

theorem allDigits_of_integer? (signless : ∀ character ∈ text, character ≠ '-' ∧ character ≠ '+')
    {found : Int} (read : integer? text = some found) : AllDigits text ∧ text ≠ [] := by
  unfold integer? at read
  split at read
  next => exact absurd rfl (signless '-' List.mem_cons_self).1
  next => exact absurd rfl (signless '+' List.mem_cons_self).2
  next =>
    obtain ⟨_, read, _⟩ := Option.map_eq_some_iff.mp read
    obtain ⟨size, read, _⟩ := Option.bind_eq_some_iff.mp read
    exact allDigits_of_natural? read

theorem isFigure_of_mantissa? (signless : ∀ character ∈ text, character ≠ '-' ∧ character ≠ '+')
    {found : Decimal} (read : mantissa? text = some found) : Formula.IsFigure text := by
  have parts := List.takeWhile_append_dropWhile (p := (· != '.')) (l := text)
  unfold mantissa? at read
  split at read
  next none =>
    rw [none, List.append_nil] at parts
    rw [parts] at read
    obtain ⟨size, read, _⟩ := Option.map_eq_some_iff.mp read
    obtain ⟨digits, present⟩ := allDigits_of_integer? signless read
    exact digits.isFigure present
  next mark fraction behind =>
    rw [behind, eq_of_dropWhile_ne behind] at parts
    split at read
    next => cases read
    next =>
      obtain ⟨size, read, _⟩ := Option.map_eq_some_iff.mp read
      rw [← parts] at signless ⊢
      obtain ⟨digits, present⟩ := allDigits_of_integer? (fun character member =>
        signless character (by
          rw [List.mem_append] at member ⊢
          exact member.imp_right (List.mem_cons_of_mem '.'))) read
      exact digits.isFigure_pointed present

theorem mantissa?_of_allDigits (digits : AllDigits text) (present : text ≠ []) :
    mantissa? text = some ⟨digitsValue text, 0⟩ := by
  have pointless : ∀ character ∈ text, (character != '.') = true := fun character member =>
    bne_iff_ne.mpr (ne_of_holds (digits character member) (by decide))
  have read : integer? text = some (digitsValue text : Int) := integer?_signed false digits present
  rw [mantissa?, List.dropWhile_eq_nil_iff.mpr pointless, List.takeWhile_eq_self_iff.mpr pointless,
    read]
  rfl

theorem exists_mantissa? (figure : Formula.IsFigure text) :
    ∃ coefficient places : Nat, places ≤ text.length ∧
      mantissa? text = some ⟨coefficient, -(places : Int)⟩ := by
  obtain ⟨digits, present⟩ | ⟨whole, fraction, rfl, digits, present⟩ := figure.cases
  · exact ⟨digitsValue text, 0, Nat.zero_le _, mantissa?_of_allDigits digits present⟩
  · have pointless : ∀ character ∈ whole, (character != '.') = true := fun character member =>
      bne_iff_ne.mpr (ne_of_holds (digits character (List.mem_append_left _ member)) (by decide))
    have point : '.' ∉ fraction := fun member =>
      absurd (digits '.' (List.mem_append_right _ member)) (by decide)
    have read : integer? (whole ++ fraction) = some (digitsValue (whole ++ fraction) : Int) :=
      integer?_signed false digits present
    refine ⟨digitsValue (whole ++ fraction), fraction.length, by simp; omega, ?_⟩
    rw [mantissa?, List.dropWhile_append_of_pos pointless, List.takeWhile_append_of_pos pointless]
    simp [point, read]

theorem isExponentMark_of_figure (figure : Formula.IsFigure text) :
    ∀ character ∈ text, isExponentMark character = false := by
  intro character member
  rcases figure.each character member with digit | rfl
  · exact isExponentMark_of_isAsciiDigit digit
  · decide

/-- A figure keeps the bounds of exponents, unless it has more digits behind its point than exponents
can count. -/
theorem exists_ofText? (figure : Formula.IsFigure text) (short : text.length ≤ 2 ^ 31) :
    ∃ number, ofText? text = some number ∧ ofNumeral? text = some number := by
  obtain ⟨coefficient, places, few, mantissa⟩ := exists_mantissa? figure
  have parts : parts? text = some (⟨coefficient, -(places : Int)⟩, 0) := by
    rw [parts?_of_unmarked (isExponentMark_of_figure figure), mantissa]
    rfl
  have inRange : exponentInRange (-(places : Int)) = true := by
    simp [exponentInRange]
    omega
  have powerless : exponentInRange 0 = true := rfl
  exact ⟨⟨coefficient, -(places : Int)⟩, by simp [ofText?, parts, inRange, powerless],
    by simp [ofNumeral?, parts]⟩

theorem ofText?_of_allDigits (digits : AllDigits text) (present : text ≠ []) :
    ofText? text = some ⟨digitsValue text, 0⟩ := by
  have parts : parts? text = some (⟨digitsValue text, 0⟩, 0) := by
    rw [parts?_of_unmarked (isExponentMark_of_figure (digits.isFigure present)),
      mantissa?_of_allDigits digits present]
    rfl
  have powerless : exponentInRange 0 = true := rfl
  simp [ofText?, parts, powerless]

end Decimal

namespace Formula

theorem isDigit_of_mark {mark : Char}
    (isMark : mark ∈ ['e', 'E', '_', '+', '-', '*', '/', '%', '(', ')', '\'', '[']) :
    Text.isDigit mark = false := by
  have none : ['e', 'E', '_', '+', '-', '*', '/', '%', '(', ')', '\'', '['].any Text.isDigit = false := by
    decide +kernel
  exact Bool.eq_false_iff.mpr (List.any_eq_false.mp none mark isMark)

/-- Of runs of digits of any script only figures are read. -/
theorem isFigure_of_literal? {text : List Char} {literal : Literal}
    (each : ∀ character ∈ text, Text.isDigit character = true ∨ character = '.')
    (read : Token.literal? text = some literal) : IsFigure text := by
  have other : ∀ {character sign : Char}, character ∈ text → sign ≠ '.' →
      Text.isDigit sign = false → character ≠ sign := by
    intro character sign member different none
    rcases each character member with digit | rfl
    · exact ne_of_holds digit none
    · exact different.symm
  have unmarked : ∀ character ∈ text, Decimal.isExponentMark character = false := by
    intro character member
    have small : character ≠ 'e' := other member (by decide) (isDigit_of_mark (by simp))
    have large : character ≠ 'E' := other member (by decide) (isDigit_of_mark (by simp))
    simp [Decimal.isExponentMark, small, large]
  cases mantissa : Decimal.mantissa? text with
  | none =>
    simp [Token.literal?, Decimal.ofText?, Decimal.parts?_of_unmarked unmarked, mantissa] at read
  | some found =>
    refine Decimal.isFigure_of_mantissa? (fun character member => ?_) mantissa
    exact ⟨other member (by decide) (isDigit_of_mark (by simp)), other member (by decide) (isDigit_of_mark (by simp))⟩

/-- Every figure spells a number, unless it is longer than exponents can count. -/
theorem IsFigure.exists_spells {text : List Char} (figure : IsFigure text)
    (short : text.length ≤ 2 ^ 31) : ∃ literal, Spells (.number literal) text := by
  obtain ⟨number, read, _⟩ := Decimal.exists_ofText? figure short
  obtain ⟨literal, found⟩ : ∃ literal, Token.literal? text = some literal := by
    rw [Token.literal?, read]
    dsimp only
    split
    next => split <;> exact ⟨_, rfl⟩
    next => exact ⟨_, rfl⟩
  obtain ⟨value, number, kind⟩ := (literal?_eq_some_iff figure).mp found
  exact ⟨literal, .number figure number kind⟩

section Runs

/-- What follows a word does not carry it on. -/
def Delimited (rest : List Char) : Prop :=
  ∀ character ∈ rest.head?, continuesWord character = false ∧ character ≠ '.'

theorem continuesWord_of_isDigit {character : Char} (digit : Text.isDigit character) :
    continuesWord character := by
  rw [continuesWord, digit, Bool.or_true]

theorem Delimited.takeWhile_append {rest name : List Char} (delimited : Delimited rest)
    (word : name.all continuesWord) : (name ++ rest).takeWhile continuesWord = name := by
  rw [List.takeWhile_append_of_pos (List.all_eq_true.mp word)]
  cases rest with
  | nil => simp
  | cons character others => simp [(delimited character rfl).1]

theorem numeral_append {text rest : List Char} {pointed : Bool}
    (each : ∀ character ∈ text, isAsciiDigit character = true ∨ character = '.')
    (point : text.count '.' ≤ if pointed then 0 else 1) (delimited : Delimited rest) :
    Token.numeral pointed (text ++ rest) = text := by
  induction text generalizing pointed with
  | nil =>
    cases rest with
    | nil => rfl
    | cons character others =>
      obtain ⟨stops, other⟩ := delimited character rfl
      have none : Text.isDigit character = false := by
        by_contra digit
        rw [continuesWord_of_isDigit (Bool.not_eq_false _ ▸ digit)] at stops
        cases stops
      simp [Token.numeral, other, none]
  | cons character others inductionHypothesis =>
    obtain ⟨first, later⟩ := List.forall_mem_cons.mp each
    rw [List.cons_append, Token.numeral]
    by_cases isPoint : character = '.'
    · subst isPoint
      rw [List.count_cons_self] at point
      cases pointed with
      | true => simp at point
      | false => rw [inductionHypothesis later (by simpa using point)]; rfl
    · have digit := Text.isDigit_of_isAsciiDigit (first.resolve_right isPoint)
      rw [List.count_cons_of_ne isPoint] at point
      simp [isPoint, digit, inductionHypothesis later point]

/-- What is taken as a numeral is digits of any script with at most one point, and stands in front. -/
theorem numeral_spec (pointed : Bool) (text : List Char) :
    (∀ character ∈ Token.numeral pointed text, Text.isDigit character = true ∨ character = '.') ∧
      Token.numeral pointed text <+: text := by
  induction text generalizing pointed with
  | nil => exact ⟨nofun, List.prefix_rfl⟩
  | cons character rest inductionHypothesis =>
    rw [Token.numeral]
    split
    next point =>
      rw [Bool.and_eq_true, beq_iff_eq] at point
      obtain ⟨each, starts⟩ := inductionHypothesis true
      rw [point.1]
      exact ⟨List.forall_mem_cons.mpr ⟨.inr rfl, each⟩, (List.prefix_cons_inj _).mpr starts⟩
    next =>
      split
      next digit =>
        obtain ⟨each, starts⟩ := inductionHypothesis pointed
        exact ⟨List.forall_mem_cons.mpr ⟨.inl digit, each⟩, (List.prefix_cons_inj _).mpr starts⟩
      next => exact ⟨nofun, List.nil_prefix⟩

theorem quoted_append {body value : List Char} (quoted : Quoted body value) (rest : List Char) :
    Token.quoted (body ++ '\'' :: rest) = some (value, body.length + 1) := by
  induction quoted with
  | nil => rfl
  | plain quote backslash _ inductionHypothesis =>
    rw [List.cons_append, Token.quoted, inductionHypothesis]
    · rfl
    · exact quote
    · exact fun _ _ same => absurd same backslash
  | escaped _ inductionHypothesis =>
    rw [List.cons_append, List.cons_append, Token.quoted, inductionHypothesis]
    rfl

theorem exists_of_quoted {text value : List Char} {passed : Nat}
    (read : Token.quoted text = some (value, passed)) :
    ∃ body rest, text = body ++ '\'' :: rest ∧ passed = body.length + 1 ∧ Quoted body value := by
  fun_induction Token.quoted text generalizing value passed with
  | case1 => cases read
  | case2 rest =>
    cases read
    exact ⟨[], rest, rfl, rfl, .nil⟩
  | case3 character rest inductionHypothesis =>
    obtain ⟨⟨found, count⟩, later, same⟩ := Option.map_eq_some_iff.mp read
    cases same
    obtain ⟨body, others, rfl, rfl, quoted⟩ := inductionHypothesis later
    exact ⟨'\\' :: character :: body, others, rfl, rfl, .escaped quoted⟩
  | case4 character rest quote backslash inductionHypothesis =>
    obtain ⟨⟨found, count⟩, later, same⟩ := Option.map_eq_some_iff.mp read
    cases same
    obtain ⟨body, others, rfl, rfl, quoted⟩ := inductionHypothesis later
    refine ⟨character :: body, others, rfl, rfl, .plain quote ?_ quoted⟩
    rintro rfl
    have present := List.append_ne_nil_of_right_ne_nil body (List.cons_ne_nil '\'' others)
    obtain ⟨next, following, behind⟩ := List.exists_cons_of_ne_nil present
    exact backslash next following rfl behind

end Runs

section Words

/-- Whether characters behind a word can belong to it. -/
def Word.runsOn : Word → Bool
  | .number _ | .column _ => true
  | _ => false

/-- Whether a word stands for a piece of text that is none. -/
def Word.isFault : Word → Bool
  | .stray | .fault .. => true
  | _ => false

theorem isBlank_of_beginsWord {character : Char} (begins : beginsWord character) :
    Text.isBlank character = false := by
  by_contra blank
  have blank : Text.isBlank character = true := Bool.not_eq_false _ ▸ blank
  rw [beginsWord, Text.isLetter_of_isBlank blank, Bool.or_false, beq_iff_eq] at begins
  subst begins
  exact absurd blank (by decide)

theorem isDigit_of_beginsWord {character : Char} (begins : beginsWord character) :
    Text.isDigit character = false := by
  rcases Bool.or_eq_true _ _ ▸ begins with underscore | letter
  · rw [beq_iff_eq.mp underscore]
    exact isDigit_of_mark (by simp)
  · exact Text.isDigit_of_isLetter letter

theorem beginsWord_of_mark {mark : Char}
    (isMark : mark ∈ ['.', '+', '-', '*', '/', '%', '(', ')', '\'', '[']) :
    beginsWord mark = false := by
  have none : ['.', '+', '-', '*', '/', '%', '(', ')', '\'', '['].any beginsWord = false := by
    decide +kernel
  exact Bool.eq_false_iff.mpr (List.any_eq_false.mp none mark isMark)

/-- No number begins with a mark that opens a word whatever stands behind it. -/
theorem not_starts_of_mark {mark : Char} (isMark : mark ∈ ['(', ')', '\'', '[']) :
    (Text.isDigit mark || mark == '.') = false := by
  have within : ['(', ')', '\'', '['] ⊆
      ['e', 'E', '_', '+', '-', '*', '/', '%', '(', ')', '\'', '['] := by decide
  rw [isDigit_of_mark (within isMark), Bool.false_or, beq_eq_false_iff_ne]
  rintro rfl
  exact absurd isMark (by decide)

/-- A word without such a mark is a number, a name or an operator. -/
theorem wordAt_of_unmarked {first : Char} (unmarked : ∀ mark ∈ ['(', ')', '\'', '['], first ≠ mark)
    (offset : Nat) (rest : List Char) :
    Token.wordAt offset first rest =
      if Text.isDigit first || first == '.' then
        let written := Token.numeral false (first :: rest)
        match Token.literal? written with
        | some literal => (.number literal, written.length)
        | none =>
          (.fault ("invalid number '" ++ String.ofList written ++ "'") (offset + 1), written.length)
      else if beginsWord first then
        let found := first :: rest.takeWhile continuesWord
        (.column (String.ofList found), found.length)
      else
        match Token.sign? first with
        | some operator => (.operator operator, 1)
        | none => (.stray, 1) := by
  simp only [List.forall_mem_cons, List.not_mem_nil, false_implies, implies_true, and_true] at unmarked
  obtain ⟨opening, closing, quote, bracket⟩ := unmarked
  unfold Token.wordAt
  exact (if_neg (by simpa using opening)).trans <| (if_neg (by simpa using closing)).trans <|
    (if_neg (by simpa using quote)).trans (if_neg (by simpa using bracket))

theorem wordAt_of_literal? {first : Char} {rest : List Char} {literal : Literal}
    (starts : (Text.isDigit first || first == '.') = true)
    (read : Token.literal? (Token.numeral false (first :: rest)) = some literal) (offset : Nat) :
    Token.wordAt offset first rest =
      (.number literal, (Token.numeral false (first :: rest)).length) := by
  have unmarked : ∀ mark ∈ ['(', ')', '\'', '['], first ≠ mark := by
    rintro mark isMark rfl
    rw [not_starts_of_mark isMark] at starts
    cases starts
  rw [wordAt_of_unmarked unmarked, if_pos starts]
  dsimp only
  rw [read]

theorem wordAt_of_beginsWord {first : Char} (begins : beginsWord first) (offset : Nat)
    (rest : List Char) :
    Token.wordAt offset first rest =
      (.column (String.ofList (first :: rest.takeWhile continuesWord)),
        (first :: rest.takeWhile continuesWord).length) := by
  have within : ['(', ')', '\'', '['] ⊆
      ['.', '+', '-', '*', '/', '%', '(', ')', '\'', '['] := by decide
  have unmarked : ∀ mark ∈ ['(', ')', '\'', '['], first ≠ mark :=
    fun mark isMark => ne_of_holds begins (beginsWord_of_mark (within isMark))
  have pointless : first ≠ '.' := ne_of_holds begins (beginsWord_of_mark (by simp))
  rw [wordAt_of_unmarked unmarked, if_neg (by simp [isDigit_of_beginsWord begins, pointless]),
    if_pos begins]

theorem continuesWord_sign (operator : Operator) : continuesWord operator.sign = false := by
  have begins : beginsWord operator.sign = false :=
    beginsWord_of_mark (by cases operator <;> simp [Operator.sign])
  have digit : Text.isDigit operator.sign = false :=
    isDigit_of_mark (by cases operator <;> simp [Operator.sign])
  rw [continuesWord, begins, digit, Bool.or_false]

theorem wordAt_sign (operator : Operator) (offset : Nat) (rest : List Char) :
    Token.wordAt offset operator.sign rest = (.operator operator, 1) := by
  obtain ⟨begins, digit⟩ := Bool.or_eq_false_iff.mp (continuesWord_sign operator)
  have unmarked : ∀ mark ∈ ['(', ')', '\'', '['], operator.sign ≠ mark := by
    cases operator <;> simp [Operator.sign]
  have pointless : operator.sign ≠ '.' := by cases operator <;> decide
  have read : Token.sign? operator.sign = some operator := by cases operator <;> rfl
  rw [wordAt_of_unmarked unmarked, if_neg (by simp [digit, pointless]), if_neg (by simp [begins]),
    read]

variable {word : Word} {text rest : List Char}

/-- A word that is spelled at the head of a text is found there. -/
theorem wordAt_append (spells : Spells word text) (ends : word.runsOn → Delimited rest) :
    ∃ first others, text = first :: others ∧ Text.isBlank first = false ∧
      ∀ offset, Token.wordAt offset first (others ++ rest) = (word, text.length) := by
  cases spells with
  | @number _ value literal figure read kind =>
    obtain ⟨digit, member, _⟩ := figure.digit
    obtain ⟨first, others, rfl⟩ := List.exists_cons_of_ne_nil (List.ne_nil_of_mem member)
    have found : Token.literal? (first :: others) = some literal :=
      (literal?_eq_some_iff figure).mpr ⟨value, read, kind⟩
    have whole : Token.numeral false (first :: (others ++ rest)) = first :: others :=
      numeral_append figure.each figure.point (ends rfl)
    have starts := figure.each first List.mem_cons_self
    refine ⟨first, others, rfl, ?_, fun offset => ?_⟩
    · rcases starts with digit | rfl
      · exact isBlank_of_isDigit (Text.isDigit_of_isAsciiDigit digit)
      · decide
    · have starts : (Text.isDigit first || first == '.') = true := by
        rw [Bool.or_eq_true, beq_iff_eq]
        exact starts.imp_left Text.isDigit_of_isAsciiDigit
      rw [wordAt_of_literal? starts (by rw [whole, found]), whole]
  | @text body value quoted =>
    refine ⟨'\'', _, rfl, by decide, fun offset => ?_⟩
    rw [List.append_assoc, List.singleton_append]
    simp [Token.wordAt, quoted_append quoted]
  | @word _ isWord =>
    cases text with
    | nil => cases isWord
    | cons first others =>
      obtain ⟨begins, continues⟩ := Bool.and_eq_true_iff.mp isWord
      refine ⟨first, others, rfl, isBlank_of_beginsWord begins, fun offset => ?_⟩
      rw [wordAt_of_beginsWord begins, (ends rfl).takeWhile_append continues]
  | @bracketed name present closed =>
    refine ⟨'[', _, rfl, by decide, fun offset => ?_⟩
    have within : ∀ character ∈ name, (character != ']') = true := fun character member =>
      bne_iff_ne.mpr (ne_of_mem_of_not_mem member closed)
    have taken : (name ++ ']' :: rest).takeWhile (· != ']') = name := by
      rw [List.takeWhile_append_of_pos within]
      simp
    rw [List.append_assoc, List.singleton_append]
    simp [Token.wordAt, taken, present]
  | operator operator =>
    refine ⟨operator.sign, [], rfl, ?_, fun offset => wordAt_sign operator offset rest⟩
    cases operator <;> decide
  | opening => exact ⟨'(', [], rfl, by decide, fun _ => rfl⟩
  | closing => exact ⟨')', [], rfl, by decide, fun _ => rfl⟩

theorem length_numeral_pos {first : Char} (starts : (Text.isDigit first || first == '.') = true)
    (rest : List Char) : 0 < (Token.numeral false (first :: rest)).length := by
  rw [Token.numeral]
  split
  next => exact Nat.succ_pos _
  next other =>
    rcases Bool.or_eq_true _ _ ▸ starts with digit | point
    · rw [if_pos digit]
      exact Nat.succ_pos _
    · simp [point] at other

/-- What stands before the first closing bracket of a text that has one is the name of a column. -/
theorem exists_of_bracketed (present : rest.takeWhile (· != ']') ≠ [])
    (closed : (rest.takeWhile (· != ']')).length ≠ rest.length) :
    ∃ others, Spells (.column (String.ofList (rest.takeWhile (· != ']'))))
        ('[' :: (rest.takeWhile (· != ']') ++ [']'])) ∧
      '[' :: rest = '[' :: (rest.takeWhile (· != ']') ++ [']']) ++ others := by
  have parts := List.takeWhile_append_dropWhile (p := (· != ']')) (l := rest)
  cases behind : rest.dropWhile (· != ']') with
  | nil =>
    rw [behind, List.append_nil] at parts
    exact absurd (congrArg List.length parts) closed
  | cons mark others =>
    rw [behind, eq_of_dropWhile_ne behind] at parts
    refine ⟨others, .bracketed present (fun member => ?_), ?_⟩
    · simpa using List.mem_takeWhile_imp member
    · rw [List.cons_append, List.append_assoc, List.singleton_append, parts]

theorem sign_eq_of_sign? {first : Char} {operator : Operator}
    (sign : Token.sign? first = some operator) : operator.sign = first := by
  unfold Token.sign? at sign
  split at sign <;> cases sign <;> rfl

/-- What is found at the head of a text is spelled there. -/
theorem spells_wordAt {offset length : Nat} {first : Char}
    (found : Token.wordAt offset first rest = (word, length)) :
    0 < length ∧ (word.isFault = false → ∃ spelling others,
      Spells word spelling ∧ first :: rest = spelling ++ others ∧ length = spelling.length) := by
  unfold Token.wordAt at found
  split at found
  next opens =>
    cases found
    exact ⟨Nat.one_pos, fun _ => ⟨['('], rest, .opening, by rw [beq_iff_eq.mp opens]; rfl, rfl⟩⟩
  split at found
  next closes =>
    cases found
    exact ⟨Nat.one_pos, fun _ => ⟨[')'], rest, .closing, by rw [beq_iff_eq.mp closes]; rfl, rfl⟩⟩
  split at found
  next quote =>
    split at found
    next value passed read =>
      cases found
      obtain ⟨body, others, rfl, rfl, quoted⟩ := exists_of_quoted read
      exact ⟨Nat.succ_pos _, fun _ => ⟨_, others, .text quoted, by simp [beq_iff_eq.mp quote], by simp⟩⟩
    next =>
      cases found
      exact ⟨Nat.succ_pos _, nofun⟩
  split at found
  next bracket =>
    dsimp only at found
    split at found
    next =>
      cases found
      exact ⟨Nat.succ_pos _, nofun⟩
    next closed =>
      split at found
      next =>
        cases found
        exact ⟨Nat.two_pos, nofun⟩
      next present =>
        cases found
        obtain ⟨others, spells, whole⟩ :=
          exists_of_bracketed (by simpa using present) (by simpa using closed)
        exact ⟨Nat.succ_pos _, fun _ => ⟨_, others, spells, beq_iff_eq.mp bracket ▸ whole, by simp⟩⟩
  split at found
  next starts =>
    obtain ⟨each, others, whole⟩ := numeral_spec false (first :: rest)
    have present := length_numeral_pos starts rest
    dsimp only at found
    split at found
    next literal read =>
      cases found
      have figure := isFigure_of_literal? each read
      obtain ⟨value, number, kind⟩ := (literal?_eq_some_iff figure).mp read
      exact ⟨present, fun _ => ⟨_, others, .number figure number kind, whole.symm, rfl⟩⟩
    next =>
      cases found
      exact ⟨present, nofun⟩
  split at found
  next begins =>
    cases found
    refine ⟨Nat.succ_pos _, fun _ => ⟨_, rest.dropWhile continuesWord, .word ?_, ?_, rfl⟩⟩
    · rw [isWord, begins, Bool.true_and, List.all_eq_true]
      exact fun character member => List.mem_takeWhile_imp member
    · rw [List.cons_append, List.takeWhile_append_dropWhile]
  split at found
  next operator sign =>
    cases found
    refine ⟨Nat.one_pos, fun _ => ⟨[first], rest, ?_, rfl, rfl⟩⟩
    rw [← sign_eq_of_sign? sign]
    exact .operator operator
  next =>
    cases found
    exact ⟨Nat.one_pos, nofun⟩

end Words

end Formula

end StepQuery
