import StepQuery.Proofs.Date.Evaluation
import StepQuery.Query.DatePart

/-!
What the pieces come to that the parts of a date are built of, when the date comes to an instant: its
year, month and quarter, the start of its day and of its week, and days and numbers taken away.
-/

namespace StepQuery

open Outcome

namespace DatePart

/-- One of four numbers, by quarter. -/
def ofQuarter (quarter : Nat) (first second third fourth : Int) : Int :=
  if quarter = 1 then first else if quarter = 2 then second
  else if quarter = 3 then third else fourth

variable {document : Fields Value} {date term : Term} {moment : Instant}

open Term (EvaluatesTo)

theorem evaluatesTo_minusOne {value : ℚ} (comes : EvaluatesTo document term (.number value)) :
    EvaluatesTo document (minusOne term) (.number (value - 1)) :=
  Term.evaluatesTo_subtract comes (Term.evaluatesTo_int (by decide))

theorem evaluatesTo_equals {held value : Int} (comes : EvaluatesTo document term (.number held))
    (fits : (Int64.ofInt value).toInt = value) :
    EvaluatesTo document (equals term value) (.truth (held == value)) := by
  have compared : (Outcome.number held).equals? (.number value) = some (held == value) := by
    simp [equals?]
  exact Term.evaluatesTo_eq compared comes (Term.evaluatesTo_int fits)

theorem evaluatesTo_dateFromParts {year month day : Term} {yearValue monthValue dayValue : Int}
    (years : EvaluatesTo document year (.number yearValue))
    (months : EvaluatesTo document month (.number monthValue))
    (days : EvaluatesTo document day (.number dayValue)) :
    EvaluatesTo document (dateFromParts year month day)
      (.instant (Instant.ofParts yearValue monthValue dayValue)) := by
  have dayFirst : "day" < "month" := by decide +kernel
  have yearLast : "month" < "year" := by decide +kernel
  have sorted : Fields.ofList [("year", year), ("month", month), ("day", day)] =
      [("day", day), ("month", month), ("year", year)] := by
    simp [Fields.ofList, Fields.set, dayFirst, yearLast]
  rw [EvaluatesTo] at years months days ⊢
  rw [dateFromParts, Term.data_apply, Term.fields, sorted, Term.data, Term.dataOfFields_eq]
  simp [evaluate, Outcome.apply, years, months, days, number?, whole_intCast]

theorem evaluatesTo_minusDays {days : Term} {count : Int}
    (comes : EvaluatesTo document date (.instant moment))
    (counted : EvaluatesTo document days (.number count)) :
    EvaluatesTo document (minusDays date days)
      (.instant (moment.minusMilliseconds (count * 86400000))) := by
  have length : EvaluatesTo document (Term.int dayLength) (.number (86400000 : Int)) :=
    Term.evaluatesTo_int (by decide)
  have product : EvaluatesTo document (Term.call "$multiply" [days, Term.int dayLength])
      (.number (count * 86400000 : Int)) := by
    have multiplies : arithmetic? "$multiply" =
      some fun first second => some (.number (first * second)) := rfl
    rw [Int.cast_mul]
    exact Term.evaluate_arithmetic multiplies counted length
  have earlier := Term.evaluatesTo_earlier comes product
  rwa [whole_intCast] at earlier

theorem evaluatesTo_yearOf (comes : EvaluatesTo document date (.instant moment)) :
    EvaluatesTo document (yearOf date) (.number moment.date.year) := by
  have named : datePart? "$year" = some fun moment => moment.date.year := rfl
  exact Term.evaluatesTo_datePart named comes

theorem evaluatesTo_monthOf (comes : EvaluatesTo document date (.instant moment)) :
    EvaluatesTo document (monthOf date) (.number (moment.date.month : ℤ)) := by
  have named : datePart? "$month" = some fun moment => moment.date.month := rfl
  exact Term.evaluatesTo_datePart named comes

theorem evaluatesTo_midnight (comes : EvaluatesTo document date (.instant moment)) :
    EvaluatesTo document (midnight date) (.instant (Instant.midnight moment.day)) := by
  have named : datePart? "$dayOfMonth" = some fun moment => moment.date.day := rfl
  rw [← Instant.ofParts_date]
  exact evaluatesTo_dateFromParts (evaluatesTo_yearOf comes) (evaluatesTo_monthOf comes)
    (Term.evaluatesTo_datePart named comes)

/-- The third of a month is at most a number if the month is among the first quarters. -/
theorem evaluatesTo_upTo {count : Int} (comes : EvaluatesTo document date (.instant moment))
    (fits : (Int64.ofInt count).toInt = count) :
    EvaluatesTo document
      (Term.call "$lte" [Term.call "$divide" [monthOf date, Term.int 3], Term.int count])
      (.truth (moment.date.month ≤ 3 * count)) := by
  have divides : arithmetic? "$divide" = some fun first second =>
    if second = 0 then none else some (.number (first / second)) := rfl
  have compares : arithmetic? "$lte" =
    some fun first second => some (.truth (first ≤ second)) := rfl
  have thirds : EvaluatesTo document (Term.call "$divide" [monthOf date, Term.int 3])
      (.number (((moment.date.month : ℤ) : ℚ) / (3 : ℤ))) :=
    Term.evaluate_arithmetic divides (evaluatesTo_monthOf comes) (Term.evaluatesTo_int (by decide))
  have same : ((moment.date.month : ℤ) : ℚ) / (3 : ℤ) ≤ count ↔ moment.date.month ≤ 3 * count := by
    rw [div_le_iff₀ (by norm_num), mul_comm]
    exact_mod_cast Iff.rfl
  rw [← decide_eq_decide.mpr same]
  exact Term.evaluate_arithmetic compares thirds (Term.evaluatesTo_int fits)

theorem evaluatesTo_quarterOf (comes : EvaluatesTo document date (.instant moment)) :
    EvaluatesTo document (quarterOf date) (.number (moment.date.quarter : ℤ)) := by
  let upTo (count : Int) : Term.Case :=
    ⟨Term.call "$lte" [Term.call "$divide" [monthOf date, Term.int 3], Term.int count],
      moment.date.month ≤ 3 * count, count⟩
  have each : ∀ entry ∈ [upTo 1, upTo 2, upTo 3], entry.Decided document := by
    simp only [List.forall_mem_cons]
    exact ⟨⟨evaluatesTo_upTo comes rfl, rfl⟩, ⟨evaluatesTo_upTo comes rfl, rfl⟩,
      ⟨evaluatesTo_upTo comes rfl, rfl⟩, nofun⟩
  have quarter : Term.firstTrue [upTo 1, upTo 2, upTo 3] 4 = moment.date.quarter := by
    obtain ⟨_, last⟩ := Date.month_bounds moment.isValid_date
    simp only [Term.firstTrue, upTo, List.foldr_cons, List.foldr_nil, decide_eq_true_eq, Date.quarter]
    repeat' split
    all_goals omega
  rw [← quarter]
  exact Term.evaluatesTo_switch [upTo 1, upTo 2, upTo 3] 4 each rfl

theorem evaluatesTo_byQuarter {first second third fourth : Int}
    (comes : EvaluatesTo document date (.instant moment))
    (fits : ∀ value ∈ [first, second, third, fourth], (Int64.ofInt value).toInt = value) :
    EvaluatesTo document (byQuarter date first second third fourth)
      (.number (ofQuarter moment.date.quarter first second third fourth : ℤ)) := by
  let inQuarter (count result : Int) : Term.Case :=
    ⟨equals (quarterOf date) count, (moment.date.quarter : ℤ) == count, result⟩
  simp only [List.forall_mem_cons] at fits
  obtain ⟨firstFits, secondFits, thirdFits, fourthFits, _⟩ := fits
  have quarter := evaluatesTo_quarterOf comes
  have each : ∀ entry ∈ [inQuarter 1 first, inQuarter 2 second, inQuarter 3 third],
      entry.Decided document := by
    simp only [List.forall_mem_cons]
    exact ⟨⟨evaluatesTo_equals quarter rfl, firstFits⟩,
      ⟨evaluatesTo_equals quarter rfl, secondFits⟩,
      ⟨evaluatesTo_equals quarter rfl, thirdFits⟩, nofun⟩
  have chosen : Term.firstTrue [inQuarter 1 first, inQuarter 2 second, inQuarter 3 third] fourth =
      ofQuarter moment.date.quarter first second third fourth := by
    simp only [Term.firstTrue, inQuarter, List.foldr_cons, List.foldr_nil, beq_iff_eq, ofQuarter]
    norm_cast
  rw [← chosen]
  exact Term.evaluatesTo_switch [inQuarter 1 first, inQuarter 2 second, inQuarter 3 third] fourth
    each fourthFits

theorem evaluatesTo_firstDayOfWeekOf (comes : EvaluatesTo document date (.instant moment)) :
    EvaluatesTo document (firstDayOfWeekOf date)
      (.instant (Instant.midnight (moment.day - Date.weekday moment.day))) := by
  have named : datePart? "$dayOfWeek" = some fun moment => Date.weekday moment.day + 1 := rfl
  have count : EvaluatesTo document (minusOne (Term.apply "$dayOfWeek" date))
      (.number (Date.weekday moment.day : ℤ)) := by
    have evaluated := evaluatesTo_minusOne (Term.evaluatesTo_datePart named comes)
    rwa [Int.cast_add, Int.cast_one, add_sub_cancel_right] at evaluated
  rw [← Instant.midnight_minusMilliseconds]
  exact evaluatesTo_minusDays (evaluatesTo_midnight comes) count

theorem evaluatesTo_firstDayOfIsoWeekOf (comes : EvaluatesTo document date (.instant moment)) :
    EvaluatesTo document (firstDayOfIsoWeekOf date)
      (.instant (Instant.midnight (moment.day - (Date.weekday moment.day + 6) % 7))) := by
  have named : datePart? "$isoDayOfWeek" =
    some fun moment => (Date.weekday moment.day + 6) % 7 + 1 := rfl
  have count : EvaluatesTo document (minusOne (Term.apply "$isoDayOfWeek" date))
      (.number ((Date.weekday moment.day + 6) % 7 : ℤ)) := by
    have evaluated := evaluatesTo_minusOne (Term.evaluatesTo_datePart named comes)
    rwa [Int.cast_add, Int.cast_one, add_sub_cancel_right] at evaluated
  rw [← Instant.midnight_minusMilliseconds]
  exact evaluatesTo_minusDays (evaluatesTo_midnight comes) count

end DatePart

end StepQuery
