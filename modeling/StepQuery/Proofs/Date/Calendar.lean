import Mathlib.Tactic.IntervalCases
import StepQuery.Calendar

/-!
The days of the proleptic Gregorian calendar and their numbers.  A year taken to begin in March ends with
its leap day, so the days before its months are the same in every year and a day is given by the year and
its place in it.  Dates and numbers correspond one to one, in order, and the next date has the next
number.
-/

namespace StepQuery.Date

/-- The days before a year that begins in March, from the year 0. -/
def daysBefore (year : Int) : Int := 365 * year + year / 4 - year / 100 + year / 400

/-- The days before a month of a year that begins in March, of which March is the month 0. -/
def daysBeforeMonth (month : Int) : Int := (153 * month + 2) / 5

def marchYear (date : Date) : Int := if date.month ≤ 2 then date.year - 1 else date.year

def marchMonth (date : Date) : Int := if date.month ≤ 2 then date.month + 9 else date.month - 3

/-- The days before a date in its year from March. -/
def marchDay (date : Date) : Int := daysBeforeMonth date.marchMonth + date.day - 1

/-- A year from March has so many days. -/
def HasDay (year day : Int) : Prop := 0 ≤ day ∧ day < daysBefore (year + 1) - daysBefore year

/-- The date of a day in a year from March. -/
def ofMarch (year day : Int) : Date :=
  let month := (5 * day + 2) / 153
  ⟨if month < 10 then year else year + 1, (if month < 10 then month + 3 else month - 9).toNat,
    (day - daysBeforeMonth month + 1).toNat⟩

/-- The order of dates. -/
instance : LE Date where
  le first second := first.year < second.year ∨ first.year = second.year ∧
    (first.month < second.month ∨ first.month = second.month ∧ first.day ≤ second.day)

theorem le_iff {first second : Date} : first ≤ second ↔
    first.year < second.year ∨ first.year = second.year ∧
      (first.month < second.month ∨ first.month = second.month ∧ first.day ≤ second.day) :=
  Iff.rfl

def next (date : Date) : Date :=
  if date.day < daysInMonth date.year date.month then ⟨date.year, date.month, date.day + 1⟩
  else if date.month < 12 then ⟨date.year, date.month + 1, 1⟩
  else ⟨date.year + 1, 1, 1⟩

section Years

theorem daysBefore_succ (year : Int) :
    daysBefore (year + 1) = daysBefore year + if isLeap (year + 1) then 366 else 365 := by
  simp only [daysBefore, isLeap, Bool.and_eq_true, Bool.or_eq_true, beq_iff_eq, bne_iff_ne]
  split <;> omega

theorem daysBefore_mono {first second : Int} (before : first ≤ second) :
    daysBefore first ≤ daysBefore second := by
  simp only [daysBefore]
  omega

/-- Every day is in some year. -/
theorem exists_hasDay (day : Int) : ∃ year, HasDay year (day - daysBefore year) := by
  induction day using Int.induction_on with
  | zero => exact ⟨0, by decide, by decide⟩
  | succ day inductionHypothesis =>
    obtain ⟨year, given, within⟩ := inductionHypothesis
    by_cases same : (day : Int) + 1 < daysBefore (year + 1)
    · exact ⟨year, by omega, by omega⟩
    · have following := daysBefore_succ (year + 1)
      refine ⟨year + 1, by omega, ?_⟩
      split at following <;> omega
  | pred day inductionHypothesis =>
    obtain ⟨year, given, within⟩ := inductionHypothesis
    by_cases same : daysBefore year ≤ -(day : Int) - 1
    · exact ⟨year, by omega, by omega⟩
    · have following := daysBefore_succ (year - 1)
      rw [Int.sub_add_cancel] at following
      refine ⟨year - 1, ?_, by rw [Int.sub_add_cancel]; omega⟩
      split at following <;> omega

/-- The days of four centuries without the leap days among them. -/
def leapless (dayOfEra : Int) : Int :=
  dayOfEra - dayOfEra / 1460 + dayOfEra / 36524 - dayOfEra / 146096

theorem leapless_mono {first second : Int} (before : first ≤ second) :
    leapless first ≤ leapless second := by
  have years : first - first / 1460 ≤ second - second / 1460 := by omega
  have centuries : first / 36524 ≤ second / 36524 := Int.ediv_le_ediv (by decide) before
  have others : first / 36524 - first / 36524 / 4 ≤ second / 36524 - second / 36524 / 4 := by omega
  have eras : ∀ day : Int, day / 146096 = day / 36524 / 4 := fun day => by omega
  simp only [leapless, eras]
  omega

theorem leapless_bounds : ∀ year : Nat, year < 400 →
    leapless (daysBefore year) / 365 = year ∧
      leapless (daysBefore (year + 1) - 1) / 365 = year := by
  decide +kernel

/-- What comes between the first and the last day of a year is of that year, for leaving out the leap
days keeps the order of days. -/
theorem leapless_div {year day : Int} (given : 0 ≤ year) (bounded : year < 400)
    (within : HasDay year day) : leapless (daysBefore year + day) / 365 = year := by
  obtain ⟨year, rfl⟩ := Int.eq_ofNat_of_zero_le given
  obtain ⟨nonnegative, inYear⟩ := within
  obtain ⟨first, last⟩ := leapless_bounds year (by omega)
  have low : leapless (daysBefore year) ≤ leapless (daysBefore year + day) :=
    leapless_mono (by omega)
  have high : leapless (daysBefore year + day) ≤ leapless (daysBefore (year + 1) - 1) :=
    leapless_mono (by omega)
  omega

end Years

section Correspondence

theorem number_eq (date : Date) :
    date.number = daysBefore date.marchYear + date.marchDay - 719468 := by
  have floor : ∀ year : Int, year.fdiv 400 = year / 400 :=
    fun year => Int.fdiv_eq_ediv_of_nonneg year (by decide)
  simp only [number, daysBefore, marchDay, marchYear, marchMonth, daysBeforeMonth, floor]
  omega

theorem ofNumber_eq {year day : Int} (within : HasDay year day) :
    ofNumber (daysBefore year + day - 719468) = ofMarch year day := by
  have floor : ∀ day : Int, day.fdiv 146097 = day / 146097 :=
    fun day => Int.fdiv_eq_ediv_of_nonneg day (by decide)
  -- The era and the year of the era part the years before it from those that repeat in every era.
  have early : daysBefore year = year / 400 * 146097 + daysBefore (year % 400) := by
    simp only [daysBefore]
    omega
  have late : daysBefore (year + 1) = year / 400 * 146097 + daysBefore (year % 400 + 1) := by
    simp only [daysBefore]
    omega
  obtain ⟨given, inYear⟩ := within
  have inEra : HasDay (year % 400) day := ⟨given, by omega⟩
  have start : daysBefore 0 ≤ daysBefore (year % 400) := daysBefore_mono (by omega)
  have stop : daysBefore (year % 400 + 1) ≤ daysBefore 400 := daysBefore_mono (by omega)
  have era : (daysBefore year + day) / 146097 = year / 400 := by
    simp only [daysBefore] at start stop ⊢ early late inYear
    omega
  have dayOfEra : daysBefore year + day - year / 400 * 146097 = daysBefore (year % 400) + day := by
    omega
  have yearOfEra := leapless_div (Int.emod_nonneg year (by decide))
    (Int.emod_lt_of_pos year (by decide)) inEra
  have dayOfYear : daysBefore (year % 400) + day -
      (365 * (year % 400) + year % 400 / 4 - year % 400 / 100) = day := by
    simp only [daysBefore]
    omega
  have whole : year % 400 + year / 400 * 400 = year := by omega
  have shifted : daysBefore year + day - 719468 + 719468 = daysBefore year + day := by omega
  rw [leapless] at yearOfEra
  simp only [ofNumber, shifted, floor, era, dayOfEra, yearOfEra, dayOfYear, whole]
  have later : (if (5 * day + 2) / 153 < 10 then (5 * day + 2) / 153 + 3
      else (5 * day + 2) / 153 - 9) ≤ 2 ↔ ¬(5 * day + 2) / 153 < 10 := by
    omega
  simp only [later, ite_not]
  rfl

/-- Only the last month from March may be shorter than the days before the next one say. -/
theorem daysInMonth_le (year : Int) {month : Nat} (first : 1 ≤ month) (last : month ≤ 12) :
    (daysInMonth year month : Int) ≤
      daysBeforeMonth (marchMonth ⟨year, month, 1⟩ + 1) -
        daysBeforeMonth (marchMonth ⟨year, month, 1⟩) := by
  cases leap : isLeap year <;> interval_cases month <;>
    simp [daysInMonth, marchMonth, daysBeforeMonth, leap]

theorem month_bounds {date : Date} (valid : date.isValid) : 1 ≤ date.month ∧ date.month ≤ 12 := by
  simp only [isValid, Bool.and_eq_true, decide_eq_true_eq] at valid
  exact valid.1.1

theorem march_cases {date : Date} (valid : date.isValid) :
    (1 ≤ date.month ∧ date.month ≤ 2 ∧ date.marchYear = date.year - 1 ∧
        date.marchMonth = date.month + 9) ∨
      (2 < date.month ∧ date.month ≤ 12 ∧ date.marchYear = date.year ∧
        date.marchMonth = date.month - 3) := by
  simp only [isValid, Bool.and_eq_true, decide_eq_true_eq] at valid
  unfold marchYear marchMonth
  split
  next early => exact .inl ⟨valid.1.1.1, early, rfl, rfl⟩
  next late => exact .inr ⟨by omega, valid.1.1.2, rfl, rfl⟩

theorem marchMonth_bounds {date : Date} (valid : date.isValid) :
    0 ≤ date.marchMonth ∧ date.marchMonth ≤ 11 := by
  rcases march_cases valid with ⟨_, _, _, month⟩ | ⟨_, _, _, month⟩ <;> omega

theorem day_bounds {date : Date} (valid : date.isValid) :
    1 ≤ date.day ∧
      date.day ≤ daysBeforeMonth (date.marchMonth + 1) - daysBeforeMonth date.marchMonth := by
  obtain ⟨year, month, day⟩ := date
  simp only [isValid, Bool.and_eq_true, decide_eq_true_eq] at valid
  obtain ⟨⟨⟨first, last⟩, positive⟩, within⟩ := valid
  have length := daysInMonth_le year first last
  exact ⟨positive, le_trans (Int.ofNat_le.mpr within) length⟩

theorem hasDay_marchDay {date : Date} (valid : date.isValid) :
    HasDay date.marchYear date.marchDay := by
  obtain ⟨positive, length⟩ := day_bounds valid
  obtain ⟨first, last⟩ := marchMonth_bounds valid
  rw [HasDay, daysBefore_succ]
  simp only [marchDay, daysBeforeMonth] at length ⊢
  by_cases february : date.month = 2
  · have year : date.marchYear + 1 = date.year := by
      rcases march_cases valid with ⟨_, _, _, _⟩ | ⟨_, _, _, _⟩ <;> omega
    have month : date.marchMonth = 11 := by
      rcases march_cases valid with ⟨_, _, _, _⟩ | ⟨_, _, _, _⟩ <;> omega
    have within : date.day ≤ if isLeap date.year then 29 else 28 := by
      simp only [isValid, daysInMonth, february, Bool.and_eq_true, decide_eq_true_eq] at valid
      exact valid.2
    rw [year, month]
    cases leap : isLeap date.year <;> simp [leap] at within ⊢ <;> omega
  · have early : date.marchMonth ≤ 10 := by
      rcases march_cases valid with ⟨_, _, _, _⟩ | ⟨_, _, _, _⟩ <;> omega
    have shortest : 365 ≤ if isLeap (date.marchYear + 1) then 366 else 365 := by
      split <;> omega
    omega

theorem ofMarch_marchDay {date : Date} (valid : date.isValid) :
    ofMarch date.marchYear date.marchDay = date := by
  obtain ⟨positive, length⟩ := day_bounds valid
  obtain ⟨first, last⟩ := marchMonth_bounds valid
  have months : (5 * date.marchDay + 2) / 153 = date.marchMonth := by
    simp only [marchDay, daysBeforeMonth] at length ⊢
    omega
  have year : (if date.marchMonth < 10 then date.marchYear else date.marchYear + 1) = date.year := by
    rcases march_cases valid with ⟨_, _, _, _⟩ | ⟨_, _, _, _⟩ <;> split <;> omega
  have month : (if date.marchMonth < 10 then date.marchMonth + 3
      else date.marchMonth - 9).toNat = date.month := by
    rcases march_cases valid with ⟨_, _, _, _⟩ | ⟨_, _, _, _⟩ <;> split <;> omega
  have day : (date.marchDay - daysBeforeMonth date.marchMonth + 1).toNat = date.day := by
    simp only [marchDay]
    omega
  simp only [ofMarch, months, year, month, day]

section March

variable {year day : Int} (within : HasDay year day)

include within

/-- The place of a day in its year determines its month, and the place in the month. -/
theorem marchParts_ofMarch : (ofMarch year day).marchYear = year ∧
    (ofMarch year day).marchMonth = (5 * day + 2) / 153 ∧ (ofMarch year day).marchDay = day := by
  obtain ⟨given, inYear⟩ := within
  rw [daysBefore_succ] at inYear
  have last : (5 * day + 2) / 153 ≤ 11 := by
    split at inYear <;> omega
  have month : (ofMarch year day).marchMonth = (5 * day + 2) / 153 := by
    simp only [marchMonth, ofMarch]
    split <;> split <;> omega
  refine ⟨?_, month, ?_⟩
  · simp only [marchYear, ofMarch]
    split <;> split <;> omega
  · rw [marchDay, month]
    simp only [ofMarch, daysBeforeMonth]
    omega

theorem number_ofMarch : (ofMarch year day).number = daysBefore year + day - 719468 := by
  obtain ⟨years, _, days⟩ := marchParts_ofMarch within
  rw [number_eq, years, days]

theorem isValid_ofMarch : (ofMarch year day).isValid := by
  obtain ⟨given, inYear⟩ := within
  rw [daysBefore_succ] at inYear
  obtain ⟨month, months⟩ : ∃ month, (5 * day + 2) / 153 = month := ⟨_, rfl⟩
  have first : 0 ≤ month := by omega
  have last : month ≤ 11 := by
    split at inYear <;> omega
  simp only [isValid, ofMarch, months, daysInMonth, daysBeforeMonth, Bool.and_eq_true,
    decide_eq_true_eq, beq_iff_eq, Bool.or_eq_true]
  cases leap : isLeap (year + 1) <;>
    simp only [leap, if_true, Bool.false_eq_true, if_false] at inYear <;>
    interval_cases month <;> simp [leap] <;> omega

end March

/-- Every number is that of a valid date. -/
theorem exists_number (number : Int) : ∃ date : Date, date.isValid ∧ date.number = number := by
  obtain ⟨year, within⟩ := exists_hasDay (number + 719468)
  refine ⟨_, isValid_ofMarch within, ?_⟩
  rw [number_ofMarch within]
  omega

theorem ofNumber_number {date : Date} (valid : date.isValid) : ofNumber date.number = date := by
  rw [number_eq, ofNumber_eq (hasDay_marchDay valid), ofMarch_marchDay valid]

theorem isValid_ofNumber (number : Int) : (ofNumber number).isValid := by
  obtain ⟨date, valid, rfl⟩ := exists_number number
  rwa [ofNumber_number valid]

theorem number_ofNumber (number : Int) : (ofNumber number).number = number := by
  obtain ⟨date, valid, rfl⟩ := exists_number number
  rw [ofNumber_number valid]

end Correspondence

section Order

theorem number_lt_of_marchYear_lt {first second : Date} (valid : first.isValid)
    (otherValid : second.isValid) (before : first.marchYear < second.marchYear) :
    first.number < second.number := by
  have inFirst := (hasDay_marchDay valid).2
  have inSecond := (hasDay_marchDay otherValid).1
  have years : daysBefore (first.marchYear + 1) ≤ daysBefore second.marchYear :=
    daysBefore_mono before
  rw [number_eq, number_eq]
  omega

theorem marchDay_lt_of_marchMonth_lt {first second : Date} (valid : first.isValid)
    (otherValid : second.isValid) (before : first.marchMonth < second.marchMonth) :
    first.marchDay < second.marchDay := by
  have inFirst := (day_bounds valid).2
  have inSecond := (day_bounds otherValid).1
  simp only [marchDay, daysBeforeMonth] at inFirst ⊢
  omega

theorem number_lt_of_not_le {first second : Date} (valid : first.isValid) (otherValid : second.isValid)
    (later : ¬second ≤ first) : first.number < second.number := by
  have months := march_cases valid
  have otherMonths := march_cases otherValid
  rw [le_iff] at later
  rcases lt_trichotomy first.marchYear second.marchYear with before | same | after
  · exact number_lt_of_marchYear_lt valid otherValid before
  · have days : first.marchDay < second.marchDay := by
      by_cases before : first.marchMonth < second.marchMonth
      · exact marchDay_lt_of_marchMonth_lt valid otherValid before
      · have sameMonth : first.marchMonth = second.marchMonth := by omega
        rw [marchDay, marchDay, sameMonth]
        omega
    rw [number_eq, number_eq, same]
    omega
  · omega

/-- Dates come in the order of their numbers. -/
theorem number_le_number_iff {first second : Date} (valid : first.isValid)
    (otherValid : second.isValid) : first.number ≤ second.number ↔ first ≤ second := by
  constructor
  · intro before
    by_contra later
    exact absurd (number_lt_of_not_le otherValid valid later) (by omega)
  · intro before
    by_contra later
    by_cases after : second ≤ first
    · -- Dates that come before each other are the same.
      have same : first = second := by
        rw [le_iff] at before after
        cases first
        cases second
        rw [mk.injEq]
        dsimp only at before after
        omega
      exact later (same ▸ le_refl _)
    · exact later (number_lt_of_not_le valid otherValid after).le

end Order

section Succession

theorem daysInMonth_bounds (year : Int) (month : Nat) :
    28 ≤ daysInMonth year month ∧ daysInMonth year month ≤ 31 := by
  unfold daysInMonth
  repeat' split
  all_goals omega

theorem isValid_next {date : Date} (valid : date.isValid) : date.next.isValid := by
  have some := (daysInMonth_bounds date.year (date.month + 1)).1
  have first := (daysInMonth_bounds (date.year + 1) 1).1
  simp only [isValid, Bool.and_eq_true, decide_eq_true_eq] at valid
  unfold next
  split
  · simp only [isValid, Bool.and_eq_true, decide_eq_true_eq]
    omega
  · split <;> simp only [isValid, Bool.and_eq_true, decide_eq_true_eq] <;> omega

/-- No valid date stands between a date and the next one. -/
theorem next_le {date other : Date} (valid : other.isValid) (after : ¬other ≤ date) :
    date.next ≤ other := by
  simp only [isValid, Bool.and_eq_true, decide_eq_true_eq] at valid
  rw [le_iff] at after ⊢
  have length : other.year = date.year → other.month = date.month →
      other.day ≤ daysInMonth date.year date.month := by
    intro sameYear sameMonth
    rw [← sameYear, ← sameMonth]
    exact valid.2
  unfold next
  split
  · dsimp only
    omega
  · split <;> dsimp only <;> omega

theorem not_next_le (date : Date) : ¬date.next ≤ date := by
  rw [le_iff]
  unfold next
  split
  · dsimp only
    omega
  · split <;> dsimp only <;> omega

/-- The number of the next date is the next number. -/
theorem number_next {date : Date} (valid : date.isValid) : date.next.number = date.number + 1 := by
  have nextValid := isValid_next valid
  obtain ⟨other, otherValid, following⟩ := exists_number (date.number + 1)
  have later : ¬other ≤ date := by
    rw [← number_le_number_iff otherValid valid]
    omega
  have low : date.next.number ≤ other.number :=
    (number_le_number_iff nextValid otherValid).mpr (next_le otherValid later)
  have high : ¬date.next.number ≤ date.number :=
    fun before => date.not_next_le ((number_le_number_iff nextValid valid).mp before)
  omega

example : number ⟨1970, 1, 1⟩ = 0 := by decide

end Succession

end StepQuery.Date
