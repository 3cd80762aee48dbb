import StepQuery.Proofs.Codec.Record
import StepQuery.Proofs.Constant.Reading
import StepQuery.Query.OfPipeline

/-!
Which characters a substring keeps.  Characters have places from one on, and a negative index counts
from the end.  What is known of the two indexes beforehand is computed beforehand, the rest by the
server, and in every combination the characters between the two places are kept and no others.
-/

namespace StepQuery

/-- The characters of a text whose places lie between two bounds. -/
def charactersBetween (text : List Char) (low high : Int) : List Char :=
  ((text.zipIdx 1).filter fun entry => low ≤ (entry.2 : Int) && (entry.2 : Int) ≤ high).map (·.1)

/-- The place that an index stands for in a text of so many characters. -/
def placeOf (length : Nat) (index : Int) : Int :=
  if 0 < index then index else (length : Int) + index + 1

theorem map_filter_zipIdx_eq (text : List Char) (offset : Nat) (low high : Int) :
    ((text.zipIdx offset).filter fun entry => low ≤ (entry.2 : Int) && (entry.2 : Int) ≤ high).map
        (·.1) =
      (text.drop (low - offset).toNat).take (high + 1 - max low offset).toNat := by
  induction text generalizing offset with
  | nil => simp
  | cons character rest inductionHypothesis =>
    rw [List.zipIdx_cons, List.filter_cons]
    rcases lt_trichotomy (offset : Int) low with before | first | behind
    · have skipped : (low - offset).toNat = (low - ((offset + 1 : Nat) : Int)).toNat + 1 := by omega
      have same : max low (offset : Int) = max low ((offset + 1 : Nat) : Int) := by omega
      rw [if_neg (by simp [before]), inductionHypothesis, skipped, same, List.drop_succ_cons]
    all_goals
      have none : (low - offset).toNat = 0 := by omega
      have nothing : (low - ((offset + 1 : Nat) : Int)).toNat = 0 := by omega
      rw [none, List.drop_zero]
      by_cases within : (offset : Int) ≤ high
      · have taken : (high + 1 - max low offset).toNat =
            (high + 1 - max low ((offset + 1 : Nat) : Int)).toNat + 1 := by omega
        rw [if_pos (by simp; omega), List.map_cons, inductionHypothesis, nothing, List.drop_zero, taken,
          List.take_succ_cons]
      · have empty : (high + 1 - max low offset).toNat = 0 := by omega
        have later : (high + 1 - max low ((offset + 1 : Nat) : Int)).toNat = 0 := by omega
        rw [if_neg (by simp; omega), inductionHypothesis, empty, later, List.take_zero, List.take_zero]

/-- The characters between two places are those behind the ones before the first place. -/
theorem take_drop_eq_charactersBetween (text : List Char) (low high : Int) :
    (text.drop (max 0 (low - 1)).toNat).take (max 0 (high - max 0 (low - 1))).toNat =
      charactersBetween text low high := by
  have skipped : (max 0 (low - 1)).toNat = (low - (1 : Nat)).toNat := by omega
  have taken : (max 0 (high - max 0 (low - 1))).toNat = (high + 1 - max low (1 : Nat)).toNat := by omega
  rw [charactersBetween, map_filter_zipIdx_eq, skipped, taken]

namespace Server

variable {Row : Type} (server : Server Row) (number : Value → Option Int)

/-- An operator computes a whole number from two. -/
def Computes (operator : String) (compute : Int → Int → Int) : Prop :=
  ∀ {first second : Value} {left right : Int}, number first = some left → number second = some right →
    ∃ result, server.operate operator [some first, some second] = some result ∧
      number result = some (compute left right)

/-- What is documented of the operators on texts and on whole numbers, in whatever form numbers are
kept: the length of a text is the number of its characters, and a part of it has so many characters
from an offset on, or as many as there are. -/
structure Texts : Prop where
  int : ∀ value : Int64, number (.int value) = some value.toInt
  add : server.Computes number "$add" (· + ·)
  subtract : server.Computes number "$subtract" (· - ·)
  max : server.Computes number "$max" Max.max
  length : ∀ text : String, ∃ count,
    server.operate "$strLenCP" [some (.text text)] = some count ∧ number count = some text.length
  part : ∀ (text : String) {start count : Value} {skipped taken : Nat},
    number start = some (skipped : Int) → number count = some (taken : Int) →
      server.operate "$substrCP" [some (.text text), some start, some count] =
        some (.text (String.ofList ((text.toList.drop skipped).take taken)))

/-- On a row a term comes to a whole number. -/
def Counts (row : Row) (term : Term) (count : Int) : Prop :=
  ∃ value, server.evaluate row term.data = some (some value) ∧ number value = some count

variable {server} {number} {row : Row} {term other : Term} {left right : Int}

theorem Texts.counts_int (texts : server.Texts number) {value : Int} (bounded : Record.Bounded value) :
    server.Counts number row (Term.int value) value := by
  have kept : (Int64.ofInt value).toInt = value := Int64.toInt_ofInt_of_le bounded.1 bounded.2
  exact ⟨.int (Int64.ofInt value), rfl, by rw [texts.int, kept]⟩

theorem Counts.call {operator : String} {compute : Int → Int → Int} (marked : isMarked operator)
    (eager : operator ≠ "$literal" ∧ operator ≠ "$ifNull")
    (computes : server.Computes number operator compute) (first : server.Counts number row term left)
    (second : server.Counts number row other right) :
    server.Counts number row (Term.call operator [term, other]) (compute left right) := by
  obtain ⟨firstValue, firstRead, firstNumber⟩ := first
  obtain ⟨secondValue, secondRead, secondNumber⟩ := second
  obtain ⟨result, computed, counted⟩ := computes firstNumber secondNumber
  refine ⟨result, ?_, counted⟩
  rw [evaluate_call marked eager.1 eager.2, Term.dataOf_cons, Term.dataOf_cons, Term.dataOf_nil,
    evaluateEach_cons, evaluateEach_cons, firstRead, secondRead]
  exact congrArg some computed

theorem Texts.counts_length (texts : server.Texts number) {column text : String}
    (held : server.reach row column = some (.text text)) :
    server.Counts number row (Term.apply "$strLenCP" (Term.column column)) text.length := by
  obtain ⟨count, computed, counted⟩ := texts.length text
  refine ⟨count, ?_, counted⟩
  rw [Term.data_apply, evaluate_operator (by decide)]
  change (server.evaluate row (Term.column column).data).bind
    (fun read => some (server.operate "$strLenCP" [read])) = _
  rw [evaluate_column, held]
  exact congrArg some computed

theorem Texts.evaluate_part (texts : server.Texts number) {column text : String}
    (held : server.reach row column = some (.text text)) {start count : Term}
    (skips : server.Counts number row start left) (takes : server.Counts number row count right)
    (skipsNone : 0 ≤ left) (takesNone : 0 ≤ right) :
    server.evaluate row (Term.call "$substrCP" [Term.column column, start, count]).data =
      some (some (.text (String.ofList ((text.toList.drop left.toNat).take right.toNat)))) := by
  obtain ⟨startValue, startRead, startNumber⟩ := skips
  obtain ⟨countValue, countRead, countNumber⟩ := takes
  rw [← Int.toNat_of_nonneg skipsNone] at startNumber
  rw [← Int.toNat_of_nonneg takesNone] at countNumber
  rw [evaluate_call (by decide) (by decide) (by decide), Term.dataOf_cons, Term.dataOf_cons,
    Term.dataOf_cons, Term.dataOf_nil, evaluateEach_cons, evaluateEach_cons, evaluateEach_cons,
    evaluate_column, startRead, countRead, held]
  exact congrArg some (texts.part text startNumber countNumber)

theorem holdsAfter_setColumn (column : String) (term : Term) :
    server.holdsAfter row column (Staging.setColumn column term) =
      server.evaluate row term.data := by
  simp [Staging.setColumn, holdsAfter, Fields.get?]

end Server

namespace Staging

section Substring

variable {Row : Type} {server : Server Row} {number : Value → Option Int} {row : Row} {length : Term}
  {size : Nat} {first last : Int}

/-- The characters before the first place, and none if it lies before the text. -/
theorem counts_substringStart (texts : server.Texts number)
    (measured : server.Counts number row length size) (bounded : Record.Bounded first) :
    server.Counts number row (substringStart length first) (max 0 (placeOf size first - 1)) := by
  unfold Record.Bounded at bounded
  unfold substringStart placeOf
  split
  · have nonnegative : max 0 (first - 1) = first - 1 := by omega
    rw [nonnegative]
    exact texts.counts_int ⟨by omega, by omega⟩
  · have place : (size : Int) + first + 1 - 1 = size + first := by omega
    rw [place]
    exact .call (by decide) (by decide) texts.max (texts.counts_int (by decide))
      (.call (by decide) (by decide) texts.add measured (texts.counts_int bounded))

theorem counts_substringEnd (texts : server.Texts number)
    (measured : server.Counts number row length size) (bounded : Record.Bounded last)
    (indexed : last ≠ 0) :
    server.Counts number row (substringEnd length last) (placeOf size last) := by
  unfold Record.Bounded at bounded
  unfold substringEnd placeOf
  split
  · exact texts.counts_int bounded
  · rw [add_assoc]
    exact .call (by decide) (by decide) texts.add measured (texts.counts_int ⟨by omega, by omega⟩)

/-- The characters from the first place to the last, and none if the last lies before the first. -/
theorem counts_substringCount (texts : server.Texts number)
    (measured : server.Counts number row length size) (firstBounded : Record.Bounded first)
    (lastBounded : Record.Bounded last) (lastIndexed : last ≠ 0) :
    server.Counts number row (substringCount length first last)
      (max 0 (placeOf size last - max 0 (placeOf size first - 1))) := by
  unfold substringCount
  split
  next forward =>
    simp only [Bool.and_eq_true, decide_eq_true_eq] at forward
    have known : max 0 (placeOf size last - max 0 (placeOf size first - 1)) =
        max (last - (first - 1)) 0 := by
      rw [placeOf, placeOf, if_pos forward.1, if_pos forward.2]
      omega
    rw [known]
    unfold Record.Bounded at firstBounded lastBounded
    exact texts.counts_int ⟨by omega, by omega⟩
  next =>
    exact .call (by decide) (by decide) texts.max (texts.counts_int (by decide))
      (.call (by decide) (by decide) texts.subtract
        (counts_substringEnd texts measured lastBounded lastIndexed)
        (counts_substringStart texts measured firstBounded))

end Substring

/-- The column that a substring is written to. -/
def substringName (column newColumn : String) : String :=
  if newColumn == "" then column ++ "_SUBSTR" else newColumn

/-- A substring step writes one column, with the part of a text from an offset on.  On every server and
every row that holds a text, the offset and the number of characters are not negative, and the column
holds the characters between the two places that the indexes stand for. -/
theorem substring_characters (target : Target) (column newColumn : String) {first last : Int}
    (firstBounded : Record.Bounded first) (lastBounded : Record.Bounded last)
    (firstIndexed : first ≠ 0) (lastIndexed : last ≠ 0) :
    ∃ stages start count,
      stepStages target (.transform (.substring column first last newColumn)) = .ok stages ∧
      stages = setColumn (substringName column newColumn)
        (Term.call "$substrCP" [Term.column column, start, count]) ∧
      ∀ (Row : Type) (server : Server Row) (number : Value → Option Int), server.Texts number →
        ∀ (row : Row) (text : String), server.reach row column = some (.text text) →
          (∃ skipped taken : Nat, server.Counts number row start skipped ∧
            server.Counts number row count taken) ∧
          server.holdsAfter row (substringName column newColumn) stages =
            some (some (.text (String.ofList (charactersBetween text.toList
              (placeOf text.length first) (placeOf text.length last))))) := by
  let length := Term.apply "$strLenCP" (Term.column column)
  refine ⟨_, substringStart length first, substringCount length first last, ?_, rfl, ?_⟩
  · simp [stepStages, operationStages, substring, firstIndexed, lastIndexed, substringName, length]
  · intro Row server number texts row text held
    have measured := texts.counts_length held
    have starts := counts_substringStart texts measured firstBounded
    have counts := counts_substringCount texts measured firstBounded lastBounded lastIndexed
    have fromStart : 0 ≤ max 0 (placeOf text.length first - 1) := le_max_left _ _
    have someCount :
        0 ≤ max 0 (placeOf text.length last - max 0 (placeOf text.length first - 1)) :=
      le_max_left _ _
    refine ⟨⟨(max 0 (placeOf text.length first - 1)).toNat,
      (max 0 (placeOf text.length last - max 0 (placeOf text.length first - 1))).toNat, ?_, ?_⟩, ?_⟩
    · rw [Int.toNat_of_nonneg fromStart]
      exact starts
    · rw [Int.toNat_of_nonneg someCount]
      exact counts
    · have written := texts.evaluate_part held starts counts fromStart someCount
      rw [take_drop_eq_charactersBetween] at written
      rw [Server.holdsAfter_setColumn]
      exact written

/-- A whole number in 64 bits if it fits, and as a decimal if not. -/
def wholeValue (number : Int) : Value :=
  if Record.Bounded number then .int (Int64.ofInt number) else .decimal ⟨number, 0⟩

def whole? : Value → Option Int
  | .int number => some number.toInt
  | .decimal ⟨number, 0⟩ => some number
  | _ => none

theorem whole?_wholeValue (number : Int) : whole? (wholeValue number) = some number := by
  unfold wholeValue
  split
  next bounded => exact congrArg some (Int64.toInt_ofInt_of_le bounded.1 bounded.2)
  next => rfl

def wholeCompute? : String → Option (Int → Int → Int)
  | "$add" => some (· + ·)
  | "$subtract" => some (· - ·)
  | "$max" => some max
  | _ => none

/-- What a server makes of texts and whole numbers. -/
def textOperate : String → List (Option Value) → Option Value
  | "$strLenCP", [some (.text text)] => some (wholeValue text.length)
  | "$substrCP", [some (.text text), some start, some count] => do
    let skipped ← whole? start
    let taken ← whole? count
    return .text (String.ofList ((text.toList.drop skipped.toNat).take taken.toNat))
  | operator, [some first, some second] => do
    let compute ← wholeCompute? operator
    return wholeValue (compute (← whole? first) (← whole? second))
  | _, _ => none

/-- A server of rows that hold their columns side by side. -/
def textServer : Server (Fields Value) := ⟨Fields.get?, fun _ _ _ => false, textOperate⟩

theorem computes_textServer {operator : String} {compute : Int → Int → Int}
    (known : wholeCompute? operator = some compute) : textServer.Computes whole? operator compute := by
  intro first second left right firstNumber secondNumber
  refine ⟨wholeValue (compute left right), ?_, whole?_wholeValue _⟩
  simp [textServer, textOperate, known, firstNumber, secondNumber]

theorem texts_textServer : textServer.Texts whole? where
  int _ := rfl
  add := computes_textServer rfl
  subtract := computes_textServer rfl
  max := computes_textServer rfl
  length text := ⟨wholeValue text.length, rfl, whole?_wholeValue _⟩
  part text start count skipped taken startNumber countNumber := by
    simp [textServer, textOperate, startNumber, countNumber]

/-- The last three of five characters. -/
theorem substring_characters_ending : ∃ stages,
    Record.Bounded (-3) ∧ Record.Bounded (-1) ∧ (-3 : Int) ≠ 0 ∧ (-1 : Int) ≠ 0 ∧
    stepStages ⟨.usual, false⟩ (.transform (.substring "name" (-3) (-1) "")) = .ok stages ∧
    textServer.holdsAfter [("name", .text "crème")] "name_SUBSTR" stages =
      some (some (.text "ème")) := by
  have firstBounded : Record.Bounded (-3) := by decide
  have lastBounded : Record.Bounded (-1) := by decide
  obtain ⟨stages, start, count, returned, _, each⟩ := substring_characters ⟨.usual, false⟩ "name" ""
    firstBounded lastBounded (by decide) (by decide)
  have held := (each (Fields Value) textServer whole? texts_textServer [("name", .text "crème")] "crème"
    rfl).2
  exact ⟨stages, firstBounded, lastBounded, by decide, by decide, returned, held⟩

end Staging

end StepQuery
