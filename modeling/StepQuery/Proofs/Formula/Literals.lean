import StepQuery.Proofs.Formula.Printing
import StepQuery.Proofs.Number.Shortest

/-!
Which literals keep their value and type when they are printed and read again.  A literal is derived from a
text only where its word is spelled with nothing but blanks, parentheses and signs around it.  So a text
must be what its quoted form stands for, and a fraction must be written as a figure with a point.
-/

namespace StepQuery

open Text (isAsciiDigit)

namespace Formula

section Around

/-- What may stand around a literal. -/
def IsPadding (character : Char) : Prop :=
  Text.isBlank character ∨ character = '(' ∨ character = ')' ∨ character = '-'

instance : DecidablePred IsPadding := fun _ => inferInstanceAs (Decidable (_ ∨ _ ∨ _ ∨ _))

/-- A text with nothing but padding around its middle. -/
def Around (middle text : List Char) : Prop :=
  ∃ front back, text = front ++ middle ++ back ∧ ∀ character ∈ front ++ back, IsPadding character

theorem Around.pad {middle text before after : List Char} (around : Around middle text)
    (left : ∀ character ∈ before, IsPadding character)
    (right : ∀ character ∈ after, IsPadding character) : Around middle (before ++ text ++ after) := by
  obtain ⟨front, back, rfl, padding⟩ := around
  obtain ⟨inFront, behind⟩ := List.forall_mem_append.mp padding
  refine ⟨before ++ front, back ++ after, by simp, ?_⟩
  simp only [List.forall_mem_append]
  exact ⟨⟨left, inFront⟩, behind, right⟩

theorem Written.around {word : Word} {text : List Char} (written : Written word text) :
    ∃ spelling, Spells word spelling ∧ Around spelling text := by
  obtain ⟨before, spelling, after, blanks, spells, others, rfl⟩ := written
  refine ⟨spelling, spells, before, after, rfl, ?_⟩
  exact List.forall_mem_append.mpr ⟨fun _ member => .inl (blanks _ member),
    fun _ member => .inl (others _ member)⟩

theorem Around.forall_mem {middle text : List Char} {property : Char → Prop}
    (around : Around middle text) (padding : ∀ character, IsPadding character → property character)
    (inside : ∀ character ∈ middle, property character) : ∀ character ∈ text, property character := by
  obtain ⟨front, back, rfl, outside⟩ := around
  obtain ⟨left, right⟩ := List.forall_mem_append.mp outside
  simp only [List.forall_mem_append]
  exact ⟨⟨fun _ member => padding _ (left _ member), inside⟩, fun _ member => padding _ (right _ member)⟩

theorem isPadding_of_written {word : Word} {text : List Char} (written : Written word text)
    (sign : ∀ spelling, Spells word spelling → ∀ character ∈ spelling, IsPadding character) :
    ∀ character ∈ text, IsPadding character :=
  let ⟨spelling, spells, around⟩ := written.around
  around.forall_mem (fun _ padding => padding) (sign spelling spells)

/-- A word is the literal of a tree, up to the sign of a number. -/
inductive Names : Word → Tree → Prop
  | whole {value other} : Names (.number (.whole value)) (.number (.whole other))
  | fraction {value other} : Names (.number (.fraction value)) (.number (.fraction other))
  | text {value} : Names (.text value) (.text value)

theorem names_number (literal : Literal) : Names (.number literal) (.number literal) := by
  cases literal with
  | whole => exact .whole
  | fraction => exact .fraction

theorem Names.of_negated {word : Word} {tree : Tree} (names : Names word tree.negated) :
    Names word tree ∧ ∀ {other}, Names other tree → Names other tree.negated := by
  cases tree with
  | number literal =>
    cases literal <;> cases names <;> exact ⟨by constructor, fun names => by cases names; constructor⟩
  | text | column | negate | binary => cases names

/-- Where a literal is derived its word is spelled, with padding around it. -/
theorem Derives.around {level : Level} {text : List Char} {tree : Tree}
    (derived : Derives Written level text tree) {word : Word} (names : Names word tree) :
    ∃ word spelling, Names word tree ∧ Spells word spelling ∧ Around spelling text := by
  induction derived generalizing word with
  | sum _ inductionHypothesis | product _ inductionHypothesis | signed _ inductionHypothesis =>
    exact inductionHypothesis names
  | addition | multiplication | column => cases names
  | number written =>
    obtain ⟨spelling, spells, around⟩ := written.around
    exact ⟨_, spelling, names_number _, spells, around⟩
  | text written =>
    obtain ⟨spelling, spells, around⟩ := written.around
    exact ⟨_, spelling, .text, spells, around⟩
  | @minus sign text _ before _ inductionHypothesis =>
    obtain ⟨names, upward⟩ := names.of_negated
    obtain ⟨word, spelling, names, spells, around⟩ := inductionHypothesis names
    have signPadding : ∀ character ∈ sign, IsPadding character := by
      apply isPadding_of_written before
      rintro _ ⟨⟩
      simp [IsPadding, Operator.sign]
    have padded : Around spelling (sign ++ text ++ []) :=
      around.pad signPadding (List.forall_mem_nil IsPadding)
    exact ⟨word, spelling, upward names, spells, List.append_nil (sign ++ text) ▸ padded⟩
  | parentheses opening _ closing inductionHypothesis =>
    obtain ⟨word, spelling, names, spells, around⟩ := inductionHypothesis names
    refine ⟨word, spelling, names, spells, around.pad (isPadding_of_written opening ?_)
      (isPadding_of_written closing ?_)⟩
    · rintro _ ⟨⟩
      simp [IsPadding]
    · rintro _ ⟨⟩
      simp [IsPadding]

/-- Between ends that are no padding there is none. -/
theorem Around.eq_of_ends {middle text : List Char} (around : Around middle text)
    (first : ∀ character ∈ text.head?, ¬IsPadding character)
    (last : ∀ character ∈ text.getLast?, ¬IsPadding character) : middle = text := by
  obtain ⟨front, back, rfl, padding⟩ := around
  obtain ⟨left, right⟩ := List.forall_mem_append.mp padding
  have noFront : front = [] := by
    cases front with
    | nil => rfl
    | cons character rest => exact absurd (left character List.mem_cons_self) (first character rfl)
  have noBack : back = [] := by
    rcases List.eq_nil_or_concat back with none | ⟨rest, character, rfl⟩
    · exact none
    · refine absurd (right character (by simp)) (last character ?_)
      simp
  rw [noFront, noBack, List.nil_append, List.append_nil]

end Around

section Texts

variable {body value : List Char}

/-- A text as it is written between quotes. -/
def escape (value : List Char) : List Char :=
  value.flatMap fun character => if character == '\'' then ['\\', '\''] else [character]

theorem quoted_escape (backslash : '\\' ∉ value) : Quoted (escape value) value := by
  induction value with
  | nil => exact .nil
  | cons character rest inductionHypothesis =>
    rw [List.mem_cons, not_or] at backslash
    obtain ⟨other, backslash⟩ := backslash
    have behind := inductionHypothesis backslash
    rw [escape, List.flatMap_cons, ← escape]
    by_cases quote : character = '\''
    · subst quote
      exact .escaped behind
    · rw [if_neg (by simpa using quote)]
      exact .plain quote (Ne.symm other) behind

theorem length_escape (value : List Char) :
    (escape value).length = value.length + value.count '\'' := by
  induction value with
  | nil => rfl
  | cons character rest inductionHypothesis =>
    rw [escape, List.flatMap_cons, ← escape, List.length_append, inductionHypothesis,
      List.length_cons]
    by_cases quote : character = '\''
    · simp [quote]
      omega
    · simp [quote]
      omega

/-- Quotes and backslashes take two characters each. -/
theorem Quoted.length_le (quoted : Quoted body value) :
    value.length + value.count '\'' + value.count '\\' ≤ body.length := by
  induction quoted with
  | nil => exact Nat.le_refl _
  | plain quote backslash _ inductionHypothesis =>
    rw [List.count_cons_of_ne quote, List.count_cons_of_ne backslash, List.length_cons,
      List.length_cons]
    omega
  | @escaped character _ _ _ inductionHypothesis =>
    have once : (if character == '\'' then 1 else 0) + (if character == '\\' then 1 else 0) ≤ 1 := by
      by_cases quote : character = '\'' <;> simp [quote]
      split <;> simp
    simp only [List.count_cons, List.length_cons]
    omega

/-- Only quotes are escaped when a text is written, so that a backslash is lost. -/
theorem survives_text_iff {span : Span} {value : String} :
    Survives (.text span value) ↔ '\\' ∉ value.toList := by
  have shape : write (.text span value) = '\'' :: (escape value.toList ++ ['\'']) := rfl
  have visible : ¬IsPadding '\'' := by decide
  rw [survives_iff, shape]
  constructor
  · intro derived
    obtain ⟨_, spelling, ⟨⟩, spells, around⟩ := derived.around (.text : Names (.text value) _)
    have same := around.eq_of_ends (by simpa using visible) (by
      rw [← List.cons_append, List.getLast?_concat]
      simpa using visible)
    cases spells with
    | @text body value quoted =>
      rw [List.cons.injEq, List.append_left_inj] at same
      have least := quoted.length_le
      rw [same.2, String.toList_ofList, length_escape] at least
      rw [String.toList_ofList, ← List.count_eq_zero]
      omega
  · intro backslash
    have spells := Spells.text (quoted_escape backslash)
    rw [String.ofList_toList] at spells
    exact .sum (.product (.signed (.text spells.written)))

end Texts

section Numbers

variable {text : List Char} {span : Span}

/-- A minus in front of a number is taken into it. -/
theorem derives_signed {literal : Literal} (spells : Spells (.number literal) text) (negative : Bool) :
    Derives Written .sum (Decimal.signText negative ++ text)
      (.number (if negative then literal.negate else literal)) := by
  have derived : Derives Written .signed text (.number literal) := .signed (.number spells.written)
  cases negative with
  | false => exact .sum (.product derived)
  | true => exact .sum (.product (.minus (Spells.operator .subtract).written derived))

/-- Digits without a point are read as a whole number. -/
theorem literal?_of_allDigits (digits : AllDigits text) (present : text ≠ []) :
    Token.literal? text = some (.whole (Int64.ofInt (Decimal.digitsValue text))) := by
  have pointless : text.contains '.' = false := by
    rw [Bool.eq_false_iff, ne_eq, List.contains_iff_mem]
    exact fun member => absurd (digits '.' member) (by decide)
  rw [Token.literal?, Decimal.ofText?_of_allDigits digits present, pointless]
  simp [Decimal.isInteger, Decimal.integerPart]

theorem spells_of_allDigits (digits : AllDigits text) (present : text ≠ []) :
    Spells (.number (.whole (Int64.ofInt (Decimal.digitsValue text)))) text := by
  have figure := digits.isFigure present
  obtain ⟨value, number, kind⟩ :=
    (literal?_eq_some_iff figure).mp (literal?_of_allDigits digits present)
  exact .number figure number kind

theorem spells_whole (n : Nat) :
    Spells (.number (.whole (Int64.ofInt n))) (Decimal.digits n) := by
  have spells := spells_of_allDigits (AllDigits.digits n) Nat.toDigits_ne_nil
  rwa [Decimal.digitsValue_digits] at spells

/-- A whole number survives; the smallest one does because its size, which is too large by one, is read
as the number itself. -/
theorem survives_whole (value : Int64) : Survives (.number span (.whole value)) := by
  have shape : write (.number span (.whole value)) =
      Decimal.signText (decide (value.toInt < 0)) ++ Decimal.digits value.toInt.natAbs :=
    Decimal.toList_integerText value.toInt
  have derived := derives_signed (spells_whole value.toInt.natAbs) (decide (value.toInt < 0))
  rw [survives_iff, shape]
  by_cases negative : value.toInt < 0
  · have size : -(value.toInt.natAbs : Int) = value.toInt := by omega
    rw [decide_eq_true negative] at derived ⊢
    rwa [if_pos rfl, Literal.negate, ← Int64.ofInt_neg, size, Int64.ofInt_toInt] at derived
  · have size : (value.toInt.natAbs : Int) = value.toInt := by omega
    rw [decide_eq_false negative] at derived ⊢
    rwa [if_neg Bool.false_ne_true, size, Int64.ofInt_toInt] at derived

end Numbers

section Fractions

open Decimal (signText)
open NumberStyle (plain Significant)

variable {digits : List Char} {exponent : Int} {span : Span} {value : Float}

/-- Digits that are written with a point and without an exponent: the number they belong to is not
whole, not too small and not too large. -/
structure IsPointed (digits : Digits) : Prop where
  low : -4 ≤ digits.exponent
  high : digits.exponent < 6
  behind : digits.exponent + 1 < digits.digits.length

theorem positional_of_pointed (significant : Significant digits exponent) (low : -4 ≤ exponent)
    (behind : exponent + 1 < digits.length) :
    ∃ whole fraction, plain.positional digits exponent = whole ++ '.' :: fraction ∧
      AllDigits (whole ++ fraction) ∧ whole ++ fraction ≠ [] ∧
        (whole ++ fraction).length ≤ digits.length + 4 := by
  cases exponent with
  | ofNat n =>
    have long : ¬digits.length ≤ n + 1 := by
      rw [Int.ofNat_eq_natCast] at behind
      omega
    refine ⟨digits.take (n + 1), digits.drop (n + 1), ?_, ?_⟩
    · rw [NumberStyle.positional, if_neg long]
    · rw [List.take_append_drop]
      exact ⟨significant.all, significant.nonempty, Nat.le_add_right _ _⟩
  | negSucc n =>
    have zeros : AllDigits (['0'] ++ List.replicate n '0') :=
      (AllDigits.zeros 1).append (AllDigits.zeros n)
    refine ⟨['0'], List.replicate n '0' ++ digits, rfl, ?_, by simp, ?_⟩
    · rw [← List.append_assoc]
      exact zeros.append significant.all
    · simp
      omega

/-- A point is only written where digits stand behind it. -/
theorem behind_of_point_mem (significant : Significant digits exponent)
    (point : '.' ∈ plain.positional digits exponent) : exponent + 1 < digits.length := by
  have length := List.length_pos_of_ne_nil significant.nonempty
  cases exponent with
  | negSucc n => omega
  | ofNat n =>
    by_contra short
    have short : digits.length ≤ n + 1 := by
      rw [Int.ofNat_eq_natCast] at short
      omega
    have all : AllDigits (digits ++ List.replicate (n + 1 - digits.length) '0') :=
      significant.all.append (AllDigits.zeros _)
    rw [NumberStyle.positional, if_pos short] at point
    exact absurd (all '.' (by simpa [plain] using point)) (by decide)

theorem write_fraction {digits : Digits} (found : Digits.ofFloat? value = some digits) :
    write (.number span (.fraction value)) = signText digits.negative ++
      if digits.exponent < -4 || 6 ≤ digits.exponent
        then plain.scientific digits.digits digits.exponent
        else plain.positional digits.digits digits.exponent := by
  change (plain.float value).toList = _
  rw [NumberStyle.float, found]
  dsimp only
  rw [NumberStyle.write, String.toList_ofList]
  cases digits.negative <;> rfl

theorem significant_of_describes {digits : Digits} (describes : Digits.Describes digits value) :
    Significant digits.digits digits.exponent := by
  cases describes with
  | zero | negativeZero => exact ⟨AllDigits.zeros 1, by simp, .inl ⟨rfl, rfl⟩⟩
  | positive _ nonzero _ | negative _ nonzero _ =>
    exact Decimal.significant_dropTrailingZeros nonzero _

/-- A fraction is only derived from a text with a point, and from one without the letters of names and
exponents. -/
theorem letters_of_fraction {text : List Char}
    (derived : Derives Written .sum text (.number (.fraction value))) :
    '.' ∈ text ∧
      ∀ character ∈ text, IsPadding character ∨ isAsciiDigit character ∨ character = '.' := by
  obtain ⟨_, spelling, ⟨⟩, spells, around⟩ := derived.around (names_number (.fraction value))
  cases spells with
  | @number _ read literal figure number kind =>
    have point : '.' ∈ spelling := by
      by_contra none
      obtain ⟨digits, present⟩ | ⟨whole, fraction, rfl, _⟩ := figure.cases
      · have found := (literal?_eq_some_iff figure).mpr ⟨read, number, kind⟩
        rw [literal?_of_allDigits digits present] at found
        cases found
      · exact none (by simp)
    refine ⟨?_, around.forall_mem (fun _ => .inl) fun _ member => .inr (figure.each _ member)⟩
    obtain ⟨front, back, rfl, _⟩ := around
    simp [point]

/-- Digits that are written with a point spell the double that they are converted to. -/
theorem spells_positional {result : Float} (significant : Significant digits exponent)
    (last : ¬10 ∣ Decimal.digitsValue digits) (low : -4 ≤ exponent)
    (behind : exponent + 1 < digits.length) (few : digits.length ≤ 2220)
    (converted : ∀ zeros : Nat, Decimal.toFloat ⟨(Decimal.digitsValue digits * 10 ^ zeros : Nat),
      exponent - (digits.length - 1) - zeros⟩ = result) :
    Spells (.number (.fraction result)) (plain.positional digits exponent) := by
  obtain ⟨whole, fraction, shape, all, present, length⟩ := positional_of_pointed significant low behind
  have figure : IsFigure (plain.positional digits exponent) := shape ▸ all.isFigure_pointed present
  have short : (plain.positional digits exponent).length ≤ 2 ^ 31 := by
    rw [shape]
    simp at length ⊢
    omega
  obtain ⟨number, ofText, ofNumeral⟩ := Decimal.exists_ofText? figure short
  -- Documents write these digits alike, so that their numeral tells the number, up to zeros.
  obtain ⟨numeral, wellFormed, text, zeros, value⟩ :=
    NumberStyle.carries_positional false significant
  have read := wellFormed.ofNumeral?_text
  rw [text, value] at read
  have same : number = ⟨(Decimal.digitsValue digits * 10 ^ zeros : Nat),
      exponent - (digits.length - 1) - zeros⟩ := Option.some.inj (ofNumeral.symm.trans read)
  have notWhole : number.isInteger = false := by
    have places : exponent - (digits.length - 1) - zeros =
        -((zeros + (digits.length - 1 - exponent).toNat : Nat) : Int) := by omega
    rw [same, places]
    exact Decimal.isInteger_eq_false last (by omega)
  have found : Token.literal? (plain.positional digits exponent) = some (.fraction result) := by
    rw [Token.literal?, ofText]
    dsimp only
    rw [notWhole, if_neg Bool.false_ne_true, same, converted]
  obtain ⟨value, number, kind⟩ := (literal?_eq_some_iff figure).mp found
  exact .number figure number kind

/-- What is written of a double with a point is read as its size. -/
theorem spells_ofDecimal {coefficient : Nat} (positive : 0 < coefficient) (place : Int)
    (pointed : IsPointed (Digits.ofDecimal false ⟨coefficient, place⟩))
    (few : (Digits.ofDecimal false ⟨coefficient, place⟩).digits.length ≤ 2220) :
    Spells (.number (.fraction (Decimal.toFloat ⟨coefficient, place⟩)))
      (plain.positional (Digits.ofDecimal false ⟨coefficient, place⟩).digits
        (Digits.ofDecimal false ⟨coefficient, place⟩).exponent) :=
  spells_positional (Decimal.significant_dropTrailingZeros positive _)
    (Decimal.not_ten_dvd_dropTrailingZeros positive) pointed.low pointed.behind few
    (Decimal.toFloat_written positive place)

theorem isPointed_of_derives {digits : Digits} (found : Digits.ofFloat? value = some digits)
    (derived : Derives Written .sum (write (.number span (.fraction value)))
      (.number (.fraction value))) : IsPointed digits := by
  have significant := significant_of_describes (Digits.describes_of_ofFloat? found)
  obtain ⟨point, letters⟩ := letters_of_fraction derived
  rw [write_fraction found] at point letters
  split at point
  next scientific =>
    have mark : 'e' ∈ plain.scientific digits.digits digits.exponent := by
      simp [NumberStyle.scientific, plain]
    rw [if_pos scientific] at letters
    exact absurd (letters 'e' (List.mem_append_right _ mark)) (by decide)
  next positional =>
    simp only [Bool.or_eq_true, decide_eq_true_eq, not_or, Int.not_lt, Int.not_le] at positional
    have inside : '.' ∈ plain.positional digits.digits digits.exponent := by
      refine (List.mem_append.mp point).resolve_left ?_
      cases digits.negative <;> decide
    exact ⟨positional.1, positional.2, behind_of_point_mem significant inside⟩

theorem derives_of_isPointed {digits : Digits} (found : Digits.ofFloat? value = some digits)
    (pointed : IsPointed digits) :
    Derives Written .sum (write (.number span (.fraction value))) (.number (.fraction value)) := by
  have few := Digits.length_ofFloat?_le found
  have positional : ¬(decide (digits.exponent < -4) || decide (6 ≤ digits.exponent)) = true := by
    simp only [Bool.or_eq_true, decide_eq_true_eq, not_or, Int.not_lt, Int.not_le]
    exact ⟨pointed.low, pointed.high⟩
  rw [write_fraction found, if_neg positional]
  cases Digits.describes_of_ofFloat? found with
  | zero | negativeZero => exact absurd pointed.behind (by decide)
  | positive canonical nonzero reads =>
    rw [← reads]
    exact derives_signed (spells_ofDecimal nonzero _ pointed few) false
  | negative canonical nonzero reads =>
    rw [← canonical.neg_toFloat, ← reads]
    -- The digits are those of the size; only the sign differs.
    exact derives_signed
      (spells_ofDecimal nonzero _ ⟨pointed.low, pointed.high, pointed.behind⟩ few) true

/-- A number without digits has a name, and names are no numbers. -/
theorem exists_digits_of_derives
    (derived : Derives Written .sum (write (.number span (.fraction value)))
      (.number (.fraction value))) : ∃ digits, Digits.ofFloat? value = some digits := by
  obtain ⟨_, letters⟩ := letters_of_fraction derived
  change ∀ character ∈ (plain.float value).toList, _ at letters
  cases found : Digits.ofFloat? value with
  | some digits => exact ⟨digits, rfl⟩
  | none =>
    rw [NumberStyle.float, found] at letters
    dsimp only at letters
    split at letters
    next => exact absurd (letters 'N' (by decide)) (by decide)
    next => split at letters <;> exact absurd (letters 'I' (by decide)) (by decide)

/-- A fraction survives just if its shortest digits are written with a point and without an exponent. -/
theorem survives_fraction_iff :
    Survives (.number span (.fraction value)) ↔
      ∃ digits, Digits.ofFloat? value = some digits ∧ IsPointed digits := by
  rw [survives_iff]
  constructor
  · intro derived
    obtain ⟨digits, found⟩ := exists_digits_of_derives derived
    exact ⟨digits, found, isPointed_of_derives found derived⟩
  · rintro ⟨digits, found, pointed⟩
    exact derives_of_isPointed found pointed

end Fractions

/-- Which literals survive printing: all whole numbers, the texts without a backslash, and of the
fractions those whose shortest digits are written with a point and without an exponent. -/
theorem survives_literal_iff (span : Span) :
    (∀ value, Survives (.number span (.whole value))) ∧
    (∀ value, Survives (.text span value) ↔ '\\' ∉ value.toList) ∧
    (∀ value, Survives (.number span (.fraction value)) ↔
      ∃ digits, Digits.ofFloat? value = some digits ∧ IsPointed digits) :=
  ⟨survives_whole, fun _ => survives_text_iff, fun _ => survives_fraction_iff⟩

/-- A backslash is lost, a fraction close to a whole number is read again as a whole number, and one in
the millions is not read again. -/
theorem not_survives_parsed :
    (parse "'a\\\\b'" = .ok (.text ⟨0, 6⟩ "a\\b") ∧ ¬Survives (.text ⟨0, 6⟩ "a\\b")) ∧
    (parse "2.99999999999999999999" =
        .ok (.number ⟨0, 22⟩ (.fraction (Decimal.toFloat ⟨299999999999999999999, -20⟩))) ∧
      ¬Survives (.number ⟨0, 22⟩ (.fraction (Decimal.toFloat ⟨299999999999999999999, -20⟩)))) ∧
    (parse "1000000.5" = .ok (.number ⟨0, 9⟩ (.fraction (Decimal.toFloat ⟨10000005, -1⟩))) ∧
      ¬Survives (.number ⟨0, 9⟩ (.fraction (Decimal.toFloat ⟨10000005, -1⟩)))) :=
  ⟨⟨rfl, by decide +kernel⟩, ⟨rfl, by decide +kernel⟩, rfl, by decide +kernel⟩

end Formula

end StepQuery
