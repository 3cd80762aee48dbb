import StepQuery.Proofs.Date.Period

/-!
The periods before.  What starts before the first day of a period starts at the latest with the period
before it, and the millisecond before that first day is in this period; so the first day of the period
before is the first day that is found from there.  The years that January and the first quarter take
from the year before, and the weeks that a new year parts, need no case of their own once dates are
compared.
-/

namespace StepQuery

namespace Instant

/-- Whether the nanoseconds make less than a second. -/
def IsProper (moment : Instant) : Prop := moment.nanoseconds < 1000000000

instance (moment : Instant) : Decidable moment.IsProper :=
  inferInstanceAs (Decidable (moment.nanoseconds < 1000000000))

theorem midnight_lt_iff {day other : Int} : midnight day < midnight other ↔ day < other := by
  rw [lt_iff_le_not_ge, midnight_le_iff, midnight_le_iff, day_midnight, day_midnight]
  omega

theorem date_midnight (day : Int) : (midnight day).date = Date.ofNumber day :=
  congrArg Date.ofNumber (day_midnight day)

/-- Whole days that are taken away leave the time of day as it is. -/
theorem day_minusMilliseconds {moment : Instant} (proper : moment.IsProper) (count : Int) :
    (moment.minusMilliseconds (count * 86400000)).day = moment.day - count := by
  rw [IsProper] at proper
  simp only [day, minusMilliseconds, Int.fdiv_eq_ediv_of_nonneg _ (by decide : (0 : Int) ≤ 86400),
    Int.fdiv_eq_ediv_of_nonneg _ (by decide : (0 : Int) ≤ 1000000000)]
  omega

/-- The millisecond before a day is of the day before. -/
theorem day_midnight_minusMilliseconds (day : Int) :
    ((midnight day).minusMilliseconds 1).day = day - 1 := by
  simp only [Instant.day, minusMilliseconds, midnight,
    Int.fdiv_eq_ediv_of_nonneg _ (by decide : (0 : Int) ≤ 86400),
    Int.fdiv_eq_ediv_of_nonneg _ (by decide : (0 : Int) ≤ 1000000000)]
  omega

end Instant

namespace Date

/-- The date of the day after a numbered day is the next date. -/
theorem next_ofNumber (day : Int) : (ofNumber day).next = ofNumber (day + 1) := by
  have valid := isValid_ofNumber day
  have number : (ofNumber day).next.number = day + 1 := by
    rw [number_next valid, number_ofNumber]
  rw [← number, ofNumber_number (isValid_next valid)]

theorem quarter_bounds {date : Date} (valid : date.isValid) : 1 ≤ date.quarter ∧ date.quarter ≤ 4 := by
  obtain ⟨low, high⟩ := month_bounds valid
  simp only [quarter]
  omega

end Date

namespace Period

open Date (weekday)

/-- The part that is the first day of the period before. -/
def firstDayOfPrevious : Period → DatePart
  | .year => .firstDayOfPreviousYear
  | .quarter => .firstDayOfPreviousQuarter
  | .month => .firstDayOfPreviousMonth
  | .week => .firstDayOfPreviousWeek
  | .isoWeek => .firstDayOfPreviousIsoWeek

/-- The part that is the number of the period. -/
def number : Period → DatePart
  | .year => .year
  | .quarter => .quarter
  | .month => .month
  | .week => .week
  | .isoWeek => .isoWeek

/-- The part that is the number of the period before. -/
def previousNumber : Period → DatePart
  | .year => .previousYear
  | .quarter => .previousQuarter
  | .month => .previousMonth
  | .week => .previousWeek
  | .isoWeek => .previousIsoWeek

/-- The date on which the year, the quarter or the month before the one of a date starts. -/
def dateBefore : Period → Date → Date
  | .year, date => ⟨date.year - 1, 1, 1⟩
  | .quarter, date =>
    if date.quarter = 1 then ⟨date.year - 1, 10, 1⟩ else ⟨date.year, 3 * date.quarter - 5, 1⟩
  | _, date => if date.month = 1 then ⟨date.year - 1, 12, 1⟩ else ⟨date.year, date.month - 1, 1⟩

/-- The first day of the period before the one that a day is in. -/
def before (period : Period) (day : Int) : Int :=
  match period with
  | .week => day - weekday day - 7
  | .isoWeek => day - (weekday day + 6) % 7 - 7
  | period => (period.dateBefore (Date.ofNumber day)).number

section Days

theorem isValid_dateBefore (period : Period) {date : Date} (valid : date.isValid) :
    (period.dateBefore date).isValid := by
  obtain ⟨low, high⟩ := Date.month_bounds valid
  have quarters := Date.quarter_bounds valid
  unfold dateBefore
  split
  · exact isValid_first (by omega) (by omega)
  · split <;> exact isValid_first (by omega) (by omega)
  · split <;> exact isValid_first (by omega) (by omega)

theorem day_dateBefore (period : Period) (date : Date) : (period.dateBefore date).day = 1 := by
  unfold dateBefore
  split
  · rfl
  · split <;> rfl
  · split <;> rfl

/-- The greatest of certain dates before one of them has the greatest of their numbers. -/
theorem isGreatest_number_lt (holds : Date → Prop) {date stop : Date} (valid : date.isValid)
    (stopValid : stop.isValid) (member : holds date) (earlier : ¬stop ≤ date)
    (greatest : ∀ other : Date, other.isValid → holds other → ¬stop ≤ other → other ≤ date) :
    IsGreatest {number | holds (Date.ofNumber number) ∧ number < stop.number} date.number := by
  have inOrder : ∀ {other : Date}, other.isValid → (other.number < stop.number ↔ ¬stop ≤ other) := by
    intro other otherValid
    rw [← Date.number_le_number_iff stopValid otherValid, not_le]
  refine ⟨⟨(Date.ofNumber_number valid).symm ▸ member, (inOrder valid).mpr earlier⟩, ?_⟩
  rintro number ⟨holdsToo, upTo⟩
  have otherValid := Date.isValid_ofNumber number
  rw [← Date.number_ofNumber number] at upTo
  have smaller := greatest _ otherValid holdsToo ((inOrder otherValid).mp upTo)
  rwa [← Date.number_le_number_iff otherValid valid, Date.number_ofNumber] at smaller

/-- The period before starts on the last day before the first day that such a period starts on. -/
theorem isGreatest_before (period : Period) (day : Int) :
    IsGreatest {start | period.StartsOn start ∧ start < period.first day} (period.before day) := by
  have valid := Date.isValid_ofNumber day
  obtain ⟨low, high⟩ := Date.month_bounds valid
  have quarters := Date.quarter_bounds valid
  have earlier := period.isValid_dateBefore valid
  cases period with
  | year =>
    refine isGreatest_number_lt (fun date => date.month = 1 ∧ date.day = 1) earlier
      (isValid_first (by decide) (by decide)) ⟨rfl, rfl⟩ ?_ ?_
    · rw [Date.le_iff]
      dsimp only [dateBefore]
      omega
    · rintro other _ ⟨january, start⟩ upTo
      rw [Date.le_iff] at upTo ⊢
      dsimp only [dateBefore] at upTo ⊢
      omega
  | quarter =>
    refine isGreatest_number_lt (fun date => date.month ∈ [1, 4, 7, 10] ∧ date.day = 1) earlier
      (isValid_first (by omega) (by omega)) ?_ ?_ ?_
    · simp only [dateBefore, List.mem_cons, List.not_mem_nil, or_false]
      split <;> dsimp only <;> omega
    · rw [Date.le_iff]
      dsimp only [dateBefore]
      split <;> dsimp only <;> omega
    · rintro other _ ⟨starting, start⟩ upTo
      simp only [List.mem_cons, List.not_mem_nil, or_false] at starting
      rw [Date.le_iff] at upTo ⊢
      dsimp only [dateBefore] at upTo ⊢
      split <;> dsimp only <;> omega
  | month =>
    refine isGreatest_number_lt (fun date => date.day = 1) earlier (isValid_first low high) ?_ ?_ ?_
    · dsimp only [dateBefore]
      split <;> rfl
    · rw [Date.le_iff]
      dsimp only [dateBefore]
      split <;> dsimp only <;> omega
    · intro other otherValid start upTo
      have otherMonth := Date.month_bounds otherValid
      rw [Date.le_iff] at upTo ⊢
      dsimp only [dateBefore] at upTo ⊢
      split <;> dsimp only <;> omega
  | week =>
    refine ⟨⟨?_, ?_⟩, ?_⟩
    · simp only [StartsOn, before, weekday]
      omega
    · simp only [first, before]
      omega
    · rintro start ⟨sunday, upTo⟩
      simp only [StartsOn, first, before, weekday] at sunday upTo ⊢
      omega
  | isoWeek =>
    refine ⟨⟨?_, ?_⟩, ?_⟩
    · simp only [StartsOn, before, weekday]
      omega
    · simp only [first, before]
      omega
    · rintro start ⟨monday, upTo⟩
      simp only [StartsOn, first, before, weekday] at monday upTo ⊢
      omega

/-- The day before the first day is in the period before. -/
theorem first_first_sub_one (period : Period) (day : Int) :
    period.first (period.first day - 1) = period.before day := by
  have upTo := period.isGreatest_first (period.first day - 1)
  simp only [Int.le_sub_one_iff] at upTo
  exact upTo.unique (period.isGreatest_before day)

theorem isGreatest_midnight_before (period : Period) (day : Int) :
    IsGreatest {start | period.Starts start ∧ start < Instant.midnight (period.first day)}
      (Instant.midnight (period.before day)) := by
  obtain ⟨⟨starts, earlier⟩, greatest⟩ := period.isGreatest_before day
  refine ⟨⟨⟨_, starts, rfl⟩, Instant.midnight_lt_iff.mpr earlier⟩, ?_⟩
  rintro _ ⟨⟨other, startsToo, rfl⟩, upTo⟩
  rw [Instant.midnight_lt_iff] at upTo
  rw [Instant.midnight_le_iff, Instant.day_midnight]
  exact greatest ⟨startsToo, upTo⟩

end Days

end Period

namespace DatePart

variable {document : Fields Value} {date test : Term} {moment : Instant}

open Term (EvaluatesTo)

section Pieces

theorem evaluatesTo_yearUnless {truth : Bool} (comes : EvaluatesTo document date (.instant moment))
    (decided : EvaluatesTo document test (.truth truth)) :
    EvaluatesTo document (yearUnless date test)
      (.number (if truth then moment.date.year - 1 else moment.date.year : ℤ)) := by
  have year := evaluatesTo_yearOf comes
  have chosen := Term.evaluatesTo_cond decided (evaluatesTo_minusOne year) year
  cases truth with
  | false => exact chosen
  | true =>
    rw [if_pos rfl, Int.cast_sub, Int.cast_one]
    exact chosen

/-- A number, or the one before, where the first one is followed backwards by the last. -/
theorem evaluatesTo_backwards {term : Term} {count last : Int}
    (counted : EvaluatesTo document term (.number count)) (fits : (Int64.ofInt last).toInt = last) :
    EvaluatesTo document (Term.cond (equals term 1) (Term.int last) (minusOne term))
      (.number (if count = 1 then last else count - 1 : ℤ)) := by
  have one : (Int64.ofInt 1).toInt = 1 := rfl
  have chosen := Term.evaluatesTo_cond (evaluatesTo_equals counted one)
    (Term.evaluatesTo_int fits) (evaluatesTo_minusOne counted)
  by_cases first : count = 1
  · rw [if_pos first]
    rwa [if_pos (by simpa using first)] at chosen
  · rw [if_neg first, Int.cast_sub, Int.cast_one]
    rwa [if_neg (by simpa using first)] at chosen

theorem evaluatesTo_isoWeek (comes : EvaluatesTo document date (.instant moment)) :
    EvaluatesTo document (Term.apply "$isoWeek" date)
      (.number ((Date.dayOfYear (Date.thursday moment.day) - 1) / 7 + 1 : ℤ)) := by
  have named : Outcome.datePart? "$isoWeek" =
    some fun moment => (Date.dayOfYear (Date.thursday moment.day) - 1) / 7 + 1 := rfl
  exact Term.evaluatesTo_datePart named comes

theorem evaluatesTo_weekBefore (comes : EvaluatesTo document date (.instant moment)) :
    EvaluatesTo document (minusDays date (Term.int 7))
      (.instant (moment.minusMilliseconds (7 * 86400000))) :=
  evaluatesTo_minusDays comes (Term.evaluatesTo_int (by decide))

theorem evaluatesTo_previousDay (comes : EvaluatesTo document date (.instant moment)) :
    EvaluatesTo document (previousDay.ofDate date) (.instant (Instant.midnight (moment.day - 1))) := by
  rw [← Instant.midnight_minusMilliseconds]
  exact evaluatesTo_minusDays (evaluatesTo_midnight comes) (Term.evaluatesTo_int (by decide))

end Pieces

end DatePart

namespace Period

variable {document : Fields Value} {date : Term} {moment : Instant}

open Term (EvaluatesTo)

/-- The start of a date of which the parts are known. -/
theorem ofParts_eq_midnight {date : Date} (valid : date.isValid) (start : date.day = 1) {year month : Int}
    (years : year = date.year) (months : month = date.month) :
    Instant.ofParts year month 1 = Instant.midnight date.number := by
  obtain ⟨low, high⟩ := Date.month_bounds valid
  obtain ⟨dateYear, dateMonth, day⟩ := date
  cases start
  rw [years, months, Instant.ofParts_of_month _ low high, sub_self, add_zero]

theorem evaluatesTo_firstDayOfPrevious (period : Period)
    (comes : EvaluatesTo document date (.instant moment)) :
    EvaluatesTo document (period.firstDayOfPrevious.ofDate date)
      (.instant (Instant.midnight (period.before moment.day))) := by
  have one : EvaluatesTo document (Term.int 1) (.number (1 : ℤ)) := Term.evaluatesTo_int rfl
  have seven : EvaluatesTo document (Term.int 7) (.number (7 : ℤ)) := Term.evaluatesTo_int rfl
  have fits : (Int64.ofInt 1).toInt = 1 := rfl
  have year := DatePart.evaluatesTo_yearOf comes
  have month := DatePart.evaluatesTo_monthOf comes
  have quarter := DatePart.evaluatesTo_quarterOf comes
  obtain ⟨low, high⟩ := Date.month_bounds moment.isValid_date
  have quarters := Date.quarter_bounds moment.isValid_date
  have valid := period.isValid_dateBefore moment.isValid_date
  have start := period.day_dateBefore moment.date
  cases period with
  | year =>
    have previous := DatePart.evaluatesTo_minusOne year
    rw [← Int.cast_one, ← Int.cast_sub] at previous
    have evaluated := DatePart.evaluatesTo_dateFromParts previous one one
    rw [ofParts_eq_midnight valid start] at evaluated
    · exact evaluated
    · rfl
    · rfl
  | quarter =>
    have previous := DatePart.evaluatesTo_yearUnless comes (DatePart.evaluatesTo_equals quarter fits)
    have months : EvaluatesTo document (DatePart.byQuarter date 10 1 4 7)
        (.number (DatePart.ofQuarter moment.date.quarter 10 1 4 7)) :=
      DatePart.evaluatesTo_byQuarter comes (by decide)
    have evaluated := DatePart.evaluatesTo_dateFromParts previous months one
    rw [ofParts_eq_midnight valid start] at evaluated
    · exact evaluated
    · simp only [dateBefore, beq_iff_eq]
      split_ifs <;> first | rfl | omega
    · simp only [dateBefore, DatePart.ofQuarter]
      split_ifs <;> dsimp only <;> omega
  | month =>
    have previous := DatePart.evaluatesTo_yearUnless comes (DatePart.evaluatesTo_equals month fits)
    have months := DatePart.evaluatesTo_backwards month (rfl : (Int64.ofInt 12).toInt = 12)
    have evaluated := DatePart.evaluatesTo_dateFromParts previous months one
    rw [ofParts_eq_midnight valid start] at evaluated
    · exact evaluated
    · simp only [dateBefore, beq_iff_eq]
      split_ifs <;> first | rfl | omega
    · simp only [dateBefore]
      split_ifs <;> dsimp only <;> omega
  | week =>
    have evaluated := DatePart.evaluatesTo_minusDays (DatePart.evaluatesTo_firstDayOfWeekOf comes) seven
    rw [Instant.midnight_minusMilliseconds] at evaluated
    exact evaluated
  | isoWeek =>
    have evaluated := DatePart.evaluatesTo_minusDays
      (DatePart.evaluatesTo_firstDayOfIsoWeekOf comes) seven
    rw [Instant.midnight_minusMilliseconds] at evaluated
    exact evaluated

/-- What is the number of the period before is the number at its start.  Of weeks from Sunday this does
not hold: they are numbered in the year of the day, and the day a week before may be of another year
than the first day of its week. -/
theorem evaluatesTo_previousNumber {period : Period} (other : period ≠ .week)
    (comes : EvaluatesTo document date (.instant moment)) (proper : moment.IsProper) :
    ∃ count : ℤ, EvaluatesTo document (period.previousNumber.ofDate date) (.number count) ∧
      ∀ {another : Fields Value} {start : Term},
        EvaluatesTo another start (.instant (Instant.midnight (period.before moment.day))) →
          EvaluatesTo another (period.number.ofDate start) (.number count) := by
  have valid := period.isValid_dateBefore moment.isValid_date
  have started : (Instant.midnight (period.dateBefore moment.date).number).date =
      period.dateBefore moment.date := by
    rw [Instant.date_midnight, Date.ofNumber_number valid]
  cases period with
  | year =>
    refine ⟨(dateBefore .year moment.date).year, ?_, fun begins => ?_⟩
    · have evaluated := DatePart.evaluatesTo_minusOne (DatePart.evaluatesTo_yearOf comes)
      rw [← Int.cast_one, ← Int.cast_sub] at evaluated
      exact evaluated
    · rw [← started]
      exact DatePart.evaluatesTo_yearOf begins
  | quarter =>
    refine ⟨(dateBefore .quarter moment.date).quarter, ?_, fun begins => ?_⟩
    · have evaluated := DatePart.evaluatesTo_backwards (DatePart.evaluatesTo_quarterOf comes)
        (rfl : (Int64.ofInt 4).toInt = 4)
      have quarters := Date.quarter_bounds moment.isValid_date
      have same : ((dateBefore .quarter moment.date).quarter : ℤ) =
          (if (moment.date.quarter : ℤ) = 1 then 4 else moment.date.quarter - 1 : ℤ) := by
        simp only [dateBefore]
        split_ifs
        · rw [Date.quarter]
          dsimp only
          omega
        · omega
        · omega
        · rw [Date.quarter]
          dsimp only
          omega
      rw [same]
      exact evaluated
    · rw [← started]
      exact DatePart.evaluatesTo_quarterOf begins
  | month =>
    refine ⟨(dateBefore .month moment.date).month, ?_, fun begins => ?_⟩
    · have evaluated := DatePart.evaluatesTo_backwards (DatePart.evaluatesTo_monthOf comes)
        (rfl : (Int64.ofInt 12).toInt = 12)
      obtain ⟨low, high⟩ := Date.month_bounds moment.isValid_date
      have same : ((dateBefore .month moment.date).month : ℤ) =
          (if (moment.date.month : ℤ) = 1 then 12 else moment.date.month - 1 : ℤ) := by
        simp only [dateBefore]
        split_ifs <;> dsimp only <;> omega
      rw [same]
      exact evaluated
    · rw [← started]
      exact DatePart.evaluatesTo_monthOf begins
  | week => exact absurd rfl other
  | isoWeek =>
    refine ⟨_, DatePart.evaluatesTo_isoWeek (DatePart.evaluatesTo_weekBefore comes),
      fun begins => ?_⟩
    have evaluated := DatePart.evaluatesTo_isoWeek begins
    -- The day a week before and the first day of its week have the same Thursday.
    have same : Date.thursday (Instant.midnight (before .isoWeek moment.day)).day =
        Date.thursday (moment.minusMilliseconds (7 * 86400000)).day := by
      rw [Instant.day_midnight, Instant.day_minusMilliseconds proper]
      simp only [Date.thursday, before, Date.weekday]
      omega
    rw [same] at evaluated
    exact evaluated

end Period

namespace DatePart

/-- In a document that holds an instant, the first day of the period before comes to what the first day
of the period comes to one millisecond before that first day, which is the last start of such a period
before it; the day before comes to the midnight that starts the civil day before; and the numbers of the
year, quarter, month and ISO week before are those of the first day of that period. -/
theorem extract_previous (document : Fields Value) (column : String) (moment : Instant)
    (named : column ≠ "") (held : document.get? column = some (.date moment))
    (proper : moment.IsProper) :
    (∀ period : Period, ∃ term first start previous,
      extract period.firstDayOfPrevious.name column = .ok term ∧
      extract period.firstDay.name column = .ok first ∧
      Outcome.evaluate document first.data = some (.instant start) ∧
      Outcome.evaluate document term.data = some (.instant previous) ∧
      (∀ earlier : Fields Value, earlier.get? column = some (.date (start.minusMilliseconds 1)) →
        Outcome.evaluate earlier first.data = some (.instant previous)) ∧
      IsGreatest {other | period.Starts other ∧ other < start} previous ∧
      (period ≠ .week → ∃ (number counted : Term) (count : ℤ),
        extract period.previousNumber.name column = .ok number ∧
        extract period.number.name column = .ok counted ∧
        Outcome.evaluate document number.data = some (.number count) ∧
        ∀ begun : Fields Value, begun.get? column = some (.date previous) →
          Outcome.evaluate begun counted.data = some (.number count))) ∧
    ∃ term yesterday, extract DatePart.previousDay.name column = .ok term ∧
      Outcome.evaluate document term.data = some (.instant yesterday) ∧
      yesterday = Instant.midnight (moment.day - 1) ∧ yesterday.date.next = moment.date := by
  have comes := Term.evaluatesTo_column named held
  constructor
  · intro period
    refine ⟨_, _, _, _, extract_name _ column, extract_name _ column, period.evaluatesTo_firstDay comes,
      period.evaluatesTo_firstDayOfPrevious comes, ?_, period.isGreatest_midnight_before moment.day, ?_⟩
    · intro earlier heldThere
      have evaluated := period.evaluatesTo_firstDay (Term.evaluatesTo_column named heldThere)
      rw [Instant.day_midnight_minusMilliseconds, period.first_first_sub_one] at evaluated
      exact evaluated
    · intro other
      obtain ⟨count, evaluated, atStart⟩ := Period.evaluatesTo_previousNumber other comes proper
      exact ⟨_, _, count, extract_name _ column, extract_name _ column, evaluated,
        fun begun heldThere => atStart (Term.evaluatesTo_column named heldThere)⟩
  · refine ⟨_, _, extract_name _ column, evaluatesTo_previousDay comes, rfl, ?_⟩
    rw [Instant.date_midnight, Date.next_ofNumber, sub_add_cancel]
    rfl

/-- The quarter before the new year of 2021 is the fourth of 2020. -/
theorem extract_previous_newYear :
    ("date" ≠ "" ∧ Fields.get? [("date", Value.date newYear)] "date" = some (.date newYear) ∧
      newYear.IsProper) ∧
    ∃ term number, extract "firstDayOfPreviousQuarter" "date" = .ok term ∧
      Outcome.evaluate [("date", .date newYear)] term.data =
        some (.instant (Instant.atClock ⟨2020, 10, 1⟩ 0 0 0)) ∧
      extract "previousQuarter" "date" = .ok number ∧
      Outcome.evaluate [("date", .date newYear)] number.data = some (.number (4 : ℤ)) := by
  have named : "date" ≠ "" := by decide
  have held : Fields.get? [("date", Value.date newYear)] "date" = some (.date newYear) := rfl
  have proper : newYear.IsProper := by decide
  obtain ⟨term, first, start, previous, extracted, firstExtracted, started, evaluated, _, greatest,
    numbered⟩ := (extract_previous [("date", .date newYear)] "date" newYear named held proper).1 .quarter
  obtain ⟨number, counted, count, numberExtracted, countedExtracted, numberEvaluated, atStart⟩ :=
    numbered nofun
  have comes := Term.evaluatesTo_column named held
  have october : previous = Instant.atClock ⟨2020, 10, 1⟩ 0 0 0 := by
    cases extracted
    have read := evaluated.symm.trans (Period.evaluatesTo_firstDayOfPrevious .quarter comes)
    rw [Outcome.instant.inj (Option.some.inj read)]
    decide +kernel
  subst october
  have fourth : count = 4 := by
    cases countedExtracted
    have read := (atStart [("date", .date (Instant.atClock ⟨2020, 10, 1⟩ 0 0 0))] rfl).symm.trans
      (evaluatesTo_quarterOf (Term.evaluatesTo_column named rfl))
    rw [Int.cast_injective (Outcome.number.inj (Option.some.inj read))]
    decide +kernel
  exact ⟨⟨named, held, proper⟩, term, number, extracted, evaluated, numberExtracted,
    fourth ▸ numberEvaluated⟩

end DatePart

end StepQuery
