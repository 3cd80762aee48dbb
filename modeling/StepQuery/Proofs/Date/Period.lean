import Mathlib.Order.Bounds.Basic
import StepQuery.Proofs.Date.Parts

/-!
Periods of the calendar.  A period starts at the midnights of certain days, and the first day of the
period that an instant is in comes to the last of these midnights up to the instant.  For years, quarters
and months the days are compared as dates, for weeks by their numbers.
-/

namespace StepQuery

namespace Instant

/-- The order of time. -/
instance : LE Instant where
  le first second := first.seconds < second.seconds ∨
    first.seconds = second.seconds ∧ first.nanoseconds ≤ second.nanoseconds

theorem le_iff {first second : Instant} : first ≤ second ↔ first.seconds < second.seconds ∨
    first.seconds = second.seconds ∧ first.nanoseconds ≤ second.nanoseconds :=
  Iff.rfl

instance : PartialOrder Instant where
  le_refl moment := .inr ⟨rfl, le_refl _⟩
  le_trans first second third before after := by
    rw [le_iff] at before after ⊢
    omega
  le_antisymm first second before after := by
    rw [le_iff] at before after
    cases first
    cases second
    rw [mk.injEq]
    dsimp only at before after
    omega

theorem midnight_le_iff {day : Int} {moment : Instant} :
    midnight day ≤ moment ↔ day ≤ moment.day := by
  rw [le_iff, Instant.day, Int.fdiv_eq_ediv_of_nonneg _ (by decide), midnight]
  dsimp only
  omega

theorem day_midnight (day : Int) : (midnight day).day = day := by
  rw [Instant.day, midnight, Int.fdiv_eq_ediv_of_nonneg _ (by decide)]
  dsimp only
  omega

end Instant

inductive Period where
  | year
  | quarter
  | month
  | week
  | isoWeek

namespace Period

open Date (weekday)

/-- The part that is the first day of the period. -/
def firstDay : Period → DatePart
  | .year => .firstDayOfYear
  | .quarter => .firstDayOfQuarter
  | .month => .firstDayOfMonth
  | .week => .firstDayOfWeek
  | .isoWeek => .firstDayOfIsoWeek

/-- A period starts on a numbered day. -/
def StartsOn (period : Period) (day : Int) : Prop :=
  let date := Date.ofNumber day
  match period with
  | .year => date.month = 1 ∧ date.day = 1
  | .quarter => date.month ∈ [1, 4, 7, 10] ∧ date.day = 1
  | .month => date.day = 1
  | .week => weekday day = 0
  | .isoWeek => weekday day = 1

/-- A period starts at an instant. -/
def Starts (period : Period) (moment : Instant) : Prop :=
  ∃ day, period.StartsOn day ∧ moment = Instant.midnight day

/-- The first day of the period that a day is in. -/
def first (period : Period) (day : Int) : Int :=
  let date := Date.ofNumber day
  match period with
  | .year => Date.number ⟨date.year, 1, 1⟩
  | .quarter => Date.number ⟨date.year, 3 * date.quarter - 2, 1⟩
  | .month => Date.number ⟨date.year, date.month, 1⟩
  | .week => day - weekday day
  | .isoWeek => day - (weekday day + 6) % 7

section Days

theorem isValid_first {year : Int} {month : Nat} (low : 1 ≤ month) (high : month ≤ 12) :
    Date.isValid ⟨year, month, 1⟩ := by
  have some := (Date.daysInMonth_bounds year month).1
  simp only [Date.isValid, Bool.and_eq_true, decide_eq_true_eq]
  omega

/-- The greatest of certain dates up to that of a day has the greatest of their numbers. -/
theorem isGreatest_number (holds : Date → Prop) {date : Date} {day : Int} (valid : date.isValid)
    (member : holds date) (before : date ≤ Date.ofNumber day)
    (greatest : ∀ other, holds other → other ≤ Date.ofNumber day → other ≤ date) :
    IsGreatest {number | holds (Date.ofNumber number) ∧ number ≤ day} date.number := by
  have inOrder : ∀ {number : Int}, number ≤ day ↔ Date.ofNumber number ≤ Date.ofNumber day := by
    intro number
    rw [← Date.number_le_number_iff (Date.isValid_ofNumber _) (Date.isValid_ofNumber _),
      Date.number_ofNumber, Date.number_ofNumber]
  have itself := Date.ofNumber_number valid
  refine ⟨⟨itself.symm ▸ member, inOrder.mpr (itself.symm ▸ before)⟩, ?_⟩
  rintro number ⟨holdsToo, upTo⟩
  have smaller := greatest _ holdsToo (inOrder.mp upTo)
  rwa [← Date.number_le_number_iff (Date.isValid_ofNumber _) valid, Date.number_ofNumber] at smaller

/-- The first day of a period is the last day up to a day that the period starts on. -/
theorem isGreatest_first (period : Period) (day : Int) :
    IsGreatest {start | period.StartsOn start ∧ start ≤ day} (period.first day) := by
  have valid := Date.isValid_ofNumber day
  obtain ⟨low, high⟩ := Date.month_bounds valid
  have positive : 1 ≤ (Date.ofNumber day).day := (Date.day_bounds valid).1
  cases period with
  | year =>
    refine isGreatest_number (fun date => date.month = 1 ∧ date.day = 1)
      (isValid_first (by decide) (by decide)) ⟨rfl, rfl⟩ ?_ ?_
    · rw [Date.le_iff]
      dsimp only
      omega
    · rintro other ⟨january, start⟩ before
      rw [Date.le_iff] at before ⊢
      dsimp only
      omega
  | quarter =>
    have month : 3 * (Date.ofNumber day).quarter - 2 ∈ [1, 4, 7, 10] ∧
        3 * (Date.ofNumber day).quarter - 2 ≤ (Date.ofNumber day).month ∧
        (Date.ofNumber day).month ≤ 3 * (Date.ofNumber day).quarter := by
      simp only [Date.quarter, List.mem_cons, List.not_mem_nil, or_false]
      omega
    obtain ⟨starting, before, within⟩ := month
    refine isGreatest_number (fun date => date.month ∈ [1, 4, 7, 10] ∧ date.day = 1)
      (isValid_first (by omega) (by omega)) ⟨starting, rfl⟩ ?_ ?_
    · rw [Date.le_iff]
      dsimp only
      omega
    · rintro other ⟨startingToo, start⟩ upTo
      simp only [List.mem_cons, List.not_mem_nil, or_false] at startingToo
      rw [Date.le_iff] at upTo ⊢
      dsimp only
      omega
  | month =>
    refine isGreatest_number (fun date => date.day = 1) (isValid_first low high) rfl ?_ ?_
    · rw [Date.le_iff]
      dsimp only
      omega
    · intro other start before
      rw [Date.le_iff] at before ⊢
      dsimp only
      omega
  | week =>
    refine ⟨⟨?_, ?_⟩, ?_⟩
    · simp only [StartsOn, first, weekday]
      omega
    · simp only [first, weekday]
      omega
    · rintro start ⟨sunday, before⟩
      simp only [StartsOn, first, weekday] at sunday ⊢
      omega
  | isoWeek =>
    refine ⟨⟨?_, ?_⟩, ?_⟩
    · simp only [StartsOn, first, weekday]
      omega
    · simp only [first, weekday]
      omega
    · rintro start ⟨monday, before⟩
      simp only [StartsOn, first, weekday] at monday ⊢
      omega

/-- The start of the first day is the last start of the period up to an instant. -/
theorem isGreatest_midnight (period : Period) (moment : Instant) :
    IsGreatest {start | period.Starts start ∧ start ≤ moment}
      (Instant.midnight (period.first moment.day)) := by
  obtain ⟨⟨starts, before⟩, greatest⟩ := period.isGreatest_first moment.day
  refine ⟨⟨⟨_, starts, rfl⟩, Instant.midnight_le_iff.mpr before⟩, ?_⟩
  rintro _ ⟨⟨day, startsToo, rfl⟩, upTo⟩
  rw [Instant.midnight_le_iff] at upTo ⊢
  rw [Instant.day_midnight]
  exact greatest ⟨startsToo, upTo⟩

end Days

section Parts

variable {document : Fields Value} {date : Term} {moment : Instant}

open Term (EvaluatesTo)

theorem evaluatesTo_firstDay (period : Period) (comes : EvaluatesTo document date (.instant moment)) :
    EvaluatesTo document (period.firstDay.ofDate date)
      (.instant (Instant.midnight (period.first moment.day))) := by
  have one : EvaluatesTo document (Term.int 1) (.number (1 : ℤ)) := Term.evaluatesTo_int rfl
  have start : ∀ {month : Nat}, 1 ≤ month → month ≤ 12 →
      Instant.ofParts moment.date.year month 1 =
        Instant.midnight (Date.number ⟨moment.date.year, month, 1⟩) := by
    intro month low high
    rw [Instant.ofParts_of_month _ low high, sub_self, add_zero]
  obtain ⟨low, high⟩ := Date.month_bounds moment.isValid_date
  have year := DatePart.evaluatesTo_yearOf comes
  cases period with
  | year =>
    have january : Instant.ofParts moment.date.year 1 1 =
        Instant.midnight (Date.number ⟨moment.date.year, 1, 1⟩) := start (le_refl 1) (by decide)
    have evaluated := DatePart.evaluatesTo_dateFromParts year one one
    rw [january] at evaluated
    exact evaluated
  | quarter =>
    have first : DatePart.ofQuarter moment.date.quarter 1 4 7 10 =
        ((3 * moment.date.quarter - 2 : ℕ) : ℤ) := by
      simp only [DatePart.ofQuarter, Date.quarter]
      omega
    have month : EvaluatesTo document (DatePart.byQuarter date 1 4 7 10)
        (.number (DatePart.ofQuarter moment.date.quarter 1 4 7 10)) :=
      DatePart.evaluatesTo_byQuarter comes (by decide)
    have evaluated := DatePart.evaluatesTo_dateFromParts year month one
    rw [first, start (by simp only [Date.quarter]; omega) (by simp only [Date.quarter]; omega)] at evaluated
    exact evaluated
  | month =>
    have evaluated := DatePart.evaluatesTo_dateFromParts year (DatePart.evaluatesTo_monthOf comes) one
    rw [start low high] at evaluated
    exact evaluated
  | week => exact DatePart.evaluatesTo_firstDayOfWeekOf comes
  | isoWeek => exact DatePart.evaluatesTo_firstDayOfIsoWeekOf comes

end Parts

end Period

namespace DatePart

theorem ofName?_name (part : DatePart) : ofName? part.name = some part := by
  cases part <;> rfl

theorem extract_name (part : DatePart) (column : String) :
    extract part.name column = .ok (part.ofDate (Term.column column)) := by
  rw [extract, ofName?_name]

/-- In a document that holds an instant, the first day of every period comes to the one midnight up to
the instant that the period starts at with no later start before the instant, and the quarter to the
number of the three months around it. -/
theorem extract_firstDay (document : Fields Value) (column : String) (moment : Instant)
    (named : column ≠ "") (held : document.get? column = some (.date moment)) :
    (∀ period : Period, ∃ term start, extract period.firstDay.name column = .ok term ∧
      Outcome.evaluate document term.data = some (.instant start) ∧
      IsGreatest {start | period.Starts start ∧ start ≤ moment} start ∧
      ∀ other, period.Starts other → other ≤ moment →
        (∀ later, period.Starts later → later ≤ moment → ¬other < later) → other = start) ∧
    ∃ (term : Term) (count : ℕ), extract DatePart.quarter.name column = .ok term ∧
      Outcome.evaluate document term.data = some (.number count) ∧ 1 ≤ count ∧ count ≤ 4 ∧
      3 * (count - 1) < moment.date.month ∧ moment.date.month ≤ 3 * count := by
  have comes := Term.evaluatesTo_column named held
  constructor
  · intro period
    have greatest := period.isGreatest_midnight moment
    refine ⟨_, _, extract_name _ column, period.evaluatesTo_firstDay comes, greatest, ?_⟩
    intro other starts before last
    by_contra different
    exact last _ greatest.1.1 greatest.1.2 (lt_of_le_of_ne (greatest.2 ⟨starts, before⟩) different)
  · obtain ⟨low, high⟩ := Date.month_bounds moment.isValid_date
    have quarter := evaluatesTo_quarterOf comes
    refine ⟨_, moment.date.quarter, extract_name _ column, quarter, ?_⟩
    simp only [Date.quarter]
    omega

/-- Noon of the first day of 2021, a Friday. -/
def newYear : Instant := Instant.atClock ⟨2021, 1, 1⟩ 43200 0 0

/-- The week around a new year started in the year before, on a Monday. -/
theorem extract_firstDay_newYear :
    ("date" ≠ "" ∧ Fields.get? [("date", Value.date newYear)] "date" = some (.date newYear)) ∧
    ∃ term, extract "firstDayOfIsoWeek" "date" = .ok term ∧
      Outcome.evaluate [("date", .date newYear)] term.data =
        some (.instant (Instant.atClock ⟨2020, 12, 28⟩ 0 0 0)) := by
  have named : "date" ≠ "" := by decide
  have held : Fields.get? [("date", Value.date newYear)] "date" = some (.date newYear) := rfl
  obtain ⟨term, start, extracted, evaluated, greatest, _⟩ :=
    (extract_firstDay [("date", .date newYear)] "date" newYear named held).1 .isoWeek
  have monday : start = Instant.atClock ⟨2020, 12, 28⟩ 0 0 0 := by
    rw [greatest.unique (Period.isGreatest_midnight .isoWeek newYear)]
    decide +kernel
  exact ⟨⟨named, held⟩, term, extracted, monday ▸ evaluated⟩

end DatePart

end StepQuery
