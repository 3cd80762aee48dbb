import Mathlib.Algebra.Order.Ring.Rat
import StepQuery.Proofs.Condition.Evaluation
import StepQuery.Proofs.Date.Calendar
import StepQuery.Query.Term

/-!
What an expression on dates comes to in a document, with exact numbers.  An evaluation ends without an
outcome where an operator is not known or meets something that it does not take.  The rules below say what
a term comes to, given what the terms come to that it is built of.
-/

namespace StepQuery

/-- What an expression comes to. -/
inductive Outcome where
  | nothing
  | number (value : ℚ)
  | instant (value : Instant)
  | truth (value : Bool)
  | text (content : String)
  | list (items : List Outcome)
  | other (value : Value)

namespace Date

/-- The day of the week of a numbered day; Sunday is 0.  The day 0 was a Thursday. -/
def weekday (day : Int) : Int := (day + 4) % 7

example : weekday (number ⟨2024, 4, 15⟩) = 1 := by decide

/-- The place of a numbered day in its year, from 1. -/
def dayOfYear (day : Int) : Int := day - number ⟨(ofNumber day).year, 1, 1⟩ + 1

/-- The Thursday of the week of a numbered day, weeks beginning on Monday. -/
def thursday (day : Int) : Int := day - (weekday day + 6) % 7 + 3

/-- The number of the quarter of a date, from 1. -/
def quarter (date : Date) : Nat := (date.month + 2) / 3

end Date

namespace Instant

/-- The number of the day of an instant. -/
def day (instant : Instant) : Int := instant.seconds.fdiv 86400

/-- The start of a numbered day. -/
def midnight (day : Int) : Instant := ⟨86400 * day, 0⟩

def minusMilliseconds (instant : Instant) (milliseconds : Int) : Instant :=
  let nanoseconds := instant.seconds * 1000000000 + instant.nanoseconds - milliseconds * 1000000
  ⟨nanoseconds.fdiv 1000000000, (nanoseconds.fmod 1000000000).toNat⟩

/-- The start of a day of a month of a year.  What goes beyond a year or a month is carried over. -/
def ofParts (year month day : Int) : Instant :=
  let months := year * 12 + (month - 1)
  midnight (Date.number ⟨months.fdiv 12, (months.fmod 12).toNat + 1, 1⟩ + (day - 1))

/-- Within the months of a year nothing is carried over. -/
theorem ofParts_of_month (year : Int) {month : Nat} (first : 1 ≤ month) (last : month ≤ 12)
    (day : Int) : ofParts year month day = midnight (Date.number ⟨year, month, 1⟩ + (day - 1)) := by
  have years : (year * 12 + ((month : Int) - 1)).fdiv 12 = year := by
    rw [Int.fdiv_eq_ediv_of_nonneg _ (by decide)]
    omega
  have months : ((year * 12 + ((month : Int) - 1)).fmod 12).toNat + 1 = month := by
    rw [Int.fmod_eq_emod_of_nonneg _ (by decide)]
    omega
  rw [ofParts, years, months]

theorem isValid_date (moment : Instant) : moment.date.isValid := Date.isValid_ofNumber moment.day

theorem ofParts_date (moment : Instant) :
    ofParts moment.date.year moment.date.month moment.date.day = midnight moment.day := by
  obtain ⟨first, last⟩ := Date.month_bounds moment.isValid_date
  have number := Date.number_ofNumber moment.day
  rw [ofParts_of_month _ first last, date, ← day]
  simp only [Date.number_eq, Date.marchDay, Date.marchMonth, Date.marchYear] at number ⊢
  congr 1
  omega

theorem midnight_minusMilliseconds (day count : Int) :
    (midnight day).minusMilliseconds (count * 86400000) = midnight (day - count) := by
  have nanoseconds : 86400 * day * 1000000000 + ((0 : Nat) : Int) - count * 86400000 * 1000000 =
      (86400 * (day - count)) * 1000000000 := by
    omega
  rw [minusMilliseconds, midnight]
  simp only [nanoseconds]
  rw [Int.mul_fdiv_cancel _ (by decide), Int.mul_fmod_left]
  rfl

end Instant

namespace Outcome

/-- Of numbers only whole ones are read; expressions on dates are built of no others. -/
def ofValue : Value → Outcome
  | .null => .nothing
  | .int value => .number value.toInt
  | .bool value => .truth value
  | .text content => .text content
  | .date value => .instant value
  | value => .other value

def number? : Outcome → Option ℚ
  | .number value => some value
  | _ => none

def truth? : Outcome → Option Bool
  | .truth value => some value
  | _ => none

/-- Whether two outcomes are equal.  Lists cannot be compared. -/
def equals? : Outcome → Outcome → Option Bool
  | .list _, .list _ | .other _, .other _ => none
  | .nothing, .nothing => some true
  | .number first, .number second => some (first == second)
  | .instant first, .instant second => some (first == second)
  | .truth first, .truth second => some (first == second)
  | .text first, .text second => some (first == second)
  | _, _ => some false

/-- A number without its fraction. -/
def whole (value : ℚ) : Int := value.num.tdiv value.den

/-- What an operator reads from an instant. -/
def datePart? : String → Option (Instant → Int)
  | "$year" => some fun moment => moment.date.year
  | "$month" => some fun moment => moment.date.month
  | "$dayOfMonth" => some fun moment => moment.date.day
  | "$dayOfYear" => some fun moment => Date.dayOfYear moment.day
  | "$dayOfWeek" => some fun moment => Date.weekday moment.day + 1
  | "$isoDayOfWeek" => some fun moment => (Date.weekday moment.day + 6) % 7 + 1
  | "$week" => some fun moment =>
    (Date.dayOfYear moment.day - 1 + 7 - Date.weekday moment.day) / 7
  | "$isoWeek" => some fun moment =>
    (Date.dayOfYear (Date.thursday moment.day) - 1) / 7 + 1
  | "$isoWeekYear" => some fun moment => (Date.ofNumber (Date.thursday moment.day)).year
  | _ => none

/-- What an operator computes from two numbers. -/
def arithmetic? : String → Option (ℚ → ℚ → Option Outcome)
  | "$add" => some fun first second => some (.number (first + second))
  | "$multiply" => some fun first second => some (.number (first * second))
  | "$divide" => some fun first second =>
    if second = 0 then none else some (.number (first / second))
  | "$lte" => some fun first second => some (.truth (first ≤ second))
  | _ => none

/-- What an operator makes of an argument that has been evaluated. -/
def operate : String → Outcome → Option Outcome
  | "$subtract", .list (.instant moment :: .number milliseconds :: _) =>
    some (.instant (moment.minusMilliseconds (whole milliseconds)))
  | "$subtract", .list (.number first :: .number second :: _) => some (.number (first - second))
  | "$eq", .list (first :: second :: _) => (first.equals? second).map .truth
  | operator, .instant moment => (datePart? operator).map fun part => .number (part moment)
  | operator, .list items => do
    match ← items.mapM number? with
    | first :: second :: _ => (← arithmetic? operator) first second
    | _ => none
  | _, _ => none

section Evaluation

variable (document : Fields Value)

/-- A text that begins with a mark stands for what the document holds under the name behind it. -/
def ofText (content : String) : Outcome :=
  match content.toList with
  | '$' :: first :: rest =>
    (document.get? (String.ofList (first :: rest))).elim .nothing ofValue
  | _ => .text content

mutual

def evaluate : Value → Option Outcome
  | .text content => some (ofText document content)
  | .list items => do return .list (← evaluateEach items)
  | .map [(operator, argument)] => apply operator argument
  | .map _ => none
  | value => some (ofValue value)

def apply : String → Value → Option Outcome
  | "$cond", .list (test :: consequent :: alternative :: _) => do
    if ← (← evaluate test).truth? then evaluate consequent else evaluate alternative
  | "$switch", .map [("branches", .list branches), ("default", otherwise)] => do
    match ← firstCase branches with
    | some outcome => return outcome
    | none => evaluate otherwise
  | "$dateFromParts", .map [("day", day), ("month", month), ("year", year)] => do
    let year ← (← evaluate year).number?
    let month ← (← evaluate month).number?
    let day ← (← evaluate day).number?
    return .instant (Instant.ofParts (whole year) (whole month) (whole day))
  | operator, argument => do operate operator (← evaluate argument)

def evaluateEach : List Value → Option (List Outcome)
  | [] => some []
  | item :: rest => do
    let first ← evaluate item
    let others ← evaluateEach rest
    return first :: others

/-- What the first branch comes to whose case is true. -/
def firstCase : List Value → Option (Option Outcome)
  | [] => some none
  | .map [("case", test), ("then", result)] :: rest => do
    if ← (← evaluate test).truth? then (evaluate result).map some else firstCase rest
  | _ => none

end

end Evaluation

theorem operate_instant (operator : String) (moment : Instant) :
    operate operator (.instant moment) =
      (datePart? operator).map fun part => .number (part moment) := by
  unfold operate
  split <;> simp_all

theorem whole_intCast (value : Int) : whole (value : ℚ) = value := by
  rw [whole, Rat.num_intCast, Rat.den_intCast]
  exact Int.tdiv_one value

end Outcome

open Outcome

namespace Term

/-- A term comes to an outcome in a document. -/
def EvaluatesTo (document : Fields Value) (term : Term) (outcome : Outcome) : Prop :=
  evaluate document term.data = some outcome

variable {document : Fields Value} {term other date : Term} {moment : Instant} {first second : ℚ}

theorem evaluatesTo_column {column : String} (named : column ≠ "")
    (held : document.get? column = some (.date moment)) :
    EvaluatesTo document (Term.column column) (.instant moment) := by
  have characters : (path column).toList = '$' :: column.toList := by
    simp [path]
  rw [EvaluatesTo, Term.column, text, data_constant, evaluate, ofText, characters]
  cases name : column.toList with
  | nil => exact absurd (String.toList_eq_nil_iff.mp name) named
  | cons character rest =>
    change some ((document.get? (String.ofList (character :: rest))).elim .nothing ofValue) = _
    rw [← name, String.ofList_toList, held]
    rfl

theorem evaluatesTo_int {value : Int} (fits : (Int64.ofInt value).toInt = value) :
    EvaluatesTo document (int value) (.number value) := by
  rw [EvaluatesTo, int, data_constant, evaluate, ofValue, fits] <;> nofun

/-- Every other operator than these has its argument evaluated first. -/
theorem evaluate_apply {operator : String} {outcome : Outcome}
    (eager : operator ∉ ["$cond", "$switch", "$dateFromParts"])
    (comes : EvaluatesTo document term outcome) :
    evaluate document (Term.apply operator term).data = operate operator outcome := by
  rw [EvaluatesTo] at comes
  simp only [List.mem_cons, List.not_mem_nil, or_false, not_or] at eager
  rw [data_apply, evaluate, Outcome.apply, comes]
  · rfl
  all_goals simp [eager]

theorem evaluate_call {operator : String} {left right : Outcome}
    (eager : operator ∉ ["$cond", "$switch", "$dateFromParts"])
    (first : EvaluatesTo document term left) (second : EvaluatesTo document other right) :
    evaluate document (call operator [term, other]).data =
      operate operator (.list [left, right]) := by
  have both : EvaluatesTo document (.array [term, other]) (.list [left, right]) := by
    rw [EvaluatesTo] at first second ⊢
    rw [data_array, dataOf_cons, dataOf_cons, dataOf_nil, evaluate, evaluateEach, evaluateEach,
      evaluateEach, first, second]
    rfl
  exact evaluate_apply eager both

theorem evaluatesTo_datePart {operator : String} {part : Instant → Int}
    (named : datePart? operator = some part) (comes : EvaluatesTo document date (.instant moment)) :
    EvaluatesTo document (Term.apply operator date) (.number (part moment)) := by
  have eager : operator ∉ ["$cond", "$switch", "$dateFromParts"] := by
    intro within
    simp only [List.mem_cons, List.not_mem_nil, or_false] at within
    rcases within with rfl | rfl | rfl <;> cases named
  rw [EvaluatesTo, evaluate_apply eager comes, operate_instant, named]
  rfl

theorem evaluate_arithmetic {operator : String} {compute : ℚ → ℚ → Option Outcome}
    (named : arithmetic? operator = some compute) (left : EvaluatesTo document term (.number first))
    (right : EvaluatesTo document other (.number second)) :
    evaluate document (call operator [term, other]).data = compute first second := by
  have eager : operator ∉ ["$cond", "$switch", "$dateFromParts", "$subtract", "$eq"] := by
    intro within
    simp only [List.mem_cons, List.not_mem_nil, or_false] at within
    rcases within with rfl | rfl | rfl | rfl | rfl <;> cases named
  simp only [List.mem_cons, List.not_mem_nil, or_false, not_or] at eager
  rw [evaluate_call (by simp [eager]) left right, operate]
  · simp [number?, named]
  all_goals simp [eager]

theorem evaluatesTo_subtract (left : EvaluatesTo document term (.number first))
    (right : EvaluatesTo document other (.number second)) :
    EvaluatesTo document (call "$subtract" [term, other]) (.number (first - second)) := by
  rw [EvaluatesTo, evaluate_call (by decide) left right]
  rfl

theorem evaluatesTo_earlier (left : EvaluatesTo document date (.instant moment))
    (right : EvaluatesTo document other (.number second)) :
    EvaluatesTo document (call "$subtract" [date, other])
      (.instant (moment.minusMilliseconds (whole second))) := by
  rw [EvaluatesTo, evaluate_call (by decide) left right]
  rfl

theorem evaluatesTo_eq {left right : Outcome} {same : Bool} (compared : left.equals? right = some same)
    (first : EvaluatesTo document term left) (second : EvaluatesTo document other right) :
    EvaluatesTo document (call "$eq" [term, other]) (.truth same) := by
  rw [EvaluatesTo, evaluate_call (by decide) first second]
  change (left.equals? right).map Outcome.truth = _
  rw [compared]
  rfl

theorem evaluatesTo_cond {test consequent alternative : Term} {truth : Bool} {chosen rejected : Outcome}
    (decided : EvaluatesTo document test (.truth truth))
    (consequence : EvaluatesTo document consequent chosen)
    (other : EvaluatesTo document alternative rejected) :
    EvaluatesTo document (cond test consequent alternative) (if truth then chosen else rejected) := by
  rw [EvaluatesTo] at decided consequence other ⊢
  rw [cond, data_call, dataOf_cons, dataOf_cons, dataOf_cons, dataOf_nil, evaluate, Outcome.apply,
    decided]
  cases truth with
  | false => exact other
  | true => exact consequence

theorem firstCase_branch {test result : Term} {truth : Bool} {outcome : Outcome}
    (decided : EvaluatesTo document test (.truth truth))
    (comes : EvaluatesTo document result outcome) (rest : List Term) :
    firstCase document (dataOf (branch test result :: rest)) =
      if truth then some (some outcome) else firstCase document (dataOf rest) := by
  rw [EvaluatesTo] at decided comes
  rw [dataOf_cons, branch, data_pair (by decide +kernel), firstCase]
  simp [decided, comes, truth?]

/-- A branch of a switch: a test, whether it is true, and the number that it leads to. -/
structure Case where
  test : Term
  truth : Bool
  result : Int

def Case.branch (entry : Case) : Term := Term.branch entry.test (int entry.result)

structure Case.Decided (document : Fields Value) (entry : Case) : Prop where
  decided : EvaluatesTo document entry.test (.truth entry.truth)
  fits : (Int64.ofInt entry.result).toInt = entry.result

/-- The number of the first case that is true. -/
def firstTrue (cases : List Case) (otherwise : Int) : Int :=
  cases.foldr (fun entry others => if entry.truth then entry.result else others) otherwise

theorem firstCase_branches {cases : List Case} (each : ∀ entry ∈ cases, entry.Decided document)
    (otherwise : Int) :
    ∃ found : Option Outcome, firstCase document (dataOf (cases.map Case.branch)) = some found ∧
      found.getD (.number otherwise) = .number (firstTrue cases otherwise) := by
  induction cases with
  | nil => exact ⟨none, by rw [List.map_nil, dataOf_nil, firstCase], rfl⟩
  | cons entry rest inductionHypothesis =>
    obtain ⟨test, truth, result⟩ := entry
    obtain ⟨⟨decided, fits⟩, later⟩ := List.forall_mem_cons.mp each
    obtain ⟨found, searched, chosen⟩ := inductionHypothesis later
    rw [List.map_cons, Case.branch, firstCase_branch decided (evaluatesTo_int fits), searched]
    cases truth with
    | false => exact ⟨found, rfl, chosen⟩
    | true => exact ⟨some (.number result), rfl, rfl⟩

theorem evaluatesTo_switch (cases : List Case) (otherwise : Int)
    (each : ∀ entry ∈ cases, entry.Decided document)
    (fits : (Int64.ofInt otherwise).toInt = otherwise) :
    EvaluatesTo document (switch (cases.map Case.branch) (int otherwise))
      (.number (firstTrue cases otherwise)) := by
  obtain ⟨found, searched, chosen⟩ := firstCase_branches each otherwise
  have comes : EvaluatesTo document (int otherwise) (.number otherwise) := evaluatesTo_int fits
  rw [EvaluatesTo] at comes ⊢
  rw [switch, data_apply, data_pair (by decide +kernel), data_array, evaluate, Outcome.apply,
    searched]
  cases found with
  | none => exact comes.trans (congrArg some chosen)
  | some outcome => exact congrArg some chosen

end Term

end StepQuery
