import StepQuery.Query.Term
import StepQuery.Failure

/-!
The parts of a date and the expressions that compute them from a column.
-/

namespace StepQuery

inductive DatePart where
  | year
  | month
  | day
  | week
  | dayOfYear
  | dayOfWeek
  | isoYear
  | isoWeek
  | isoDayOfWeek
  | hour
  | minutes
  | seconds
  | milliseconds
  | quarter
  | firstDayOfYear
  | firstDayOfMonth
  | firstDayOfWeek
  | firstDayOfQuarter
  | firstDayOfIsoWeek
  | previousDay
  | firstDayOfPreviousYear
  | firstDayOfPreviousMonth
  | firstDayOfPreviousWeek
  | firstDayOfPreviousQuarter
  | firstDayOfPreviousIsoWeek
  | previousYear
  | previousMonth
  | previousWeek
  | previousQuarter
  | previousIsoWeek
deriving DecidableEq, Repr

namespace DatePart

def all : List DatePart :=
  [.year, .month, .day, .week, .dayOfYear, .dayOfWeek, .isoYear, .isoWeek, .isoDayOfWeek, .hour,
    .minutes, .seconds, .milliseconds, .quarter, .firstDayOfYear, .firstDayOfMonth,
    .firstDayOfWeek, .firstDayOfQuarter, .firstDayOfIsoWeek, .previousDay,
    .firstDayOfPreviousYear, .firstDayOfPreviousMonth, .firstDayOfPreviousWeek,
    .firstDayOfPreviousQuarter, .firstDayOfPreviousIsoWeek, .previousYear, .previousMonth,
    .previousWeek, .previousQuarter, .previousIsoWeek]

def name : DatePart → String
  | .year => "year"
  | .month => "month"
  | .day => "day"
  | .week => "week"
  | .dayOfYear => "dayOfYear"
  | .dayOfWeek => "dayOfWeek"
  | .isoYear => "isoYear"
  | .isoWeek => "isoWeek"
  | .isoDayOfWeek => "isoDayOfWeek"
  | .hour => "hour"
  | .minutes => "minutes"
  | .seconds => "seconds"
  | .milliseconds => "milliseconds"
  | .quarter => "quarter"
  | .firstDayOfYear => "firstDayOfYear"
  | .firstDayOfMonth => "firstDayOfMonth"
  | .firstDayOfWeek => "firstDayOfWeek"
  | .firstDayOfQuarter => "firstDayOfQuarter"
  | .firstDayOfIsoWeek => "firstDayOfIsoWeek"
  | .previousDay => "previousDay"
  | .firstDayOfPreviousYear => "firstDayOfPreviousYear"
  | .firstDayOfPreviousMonth => "firstDayOfPreviousMonth"
  | .firstDayOfPreviousWeek => "firstDayOfPreviousWeek"
  | .firstDayOfPreviousQuarter => "firstDayOfPreviousQuarter"
  | .firstDayOfPreviousIsoWeek => "firstDayOfPreviousIsoWeek"
  | .previousYear => "previousYear"
  | .previousMonth => "previousMonth"
  | .previousWeek => "previousWeek"
  | .previousQuarter => "previousQuarter"
  | .previousIsoWeek => "previousIsoWeek"

def ofName? (name : String) : Option DatePart := all.find? fun part => part.name == name

/-- The milliseconds of a day. -/
def dayLength : Int := 86400000

def minusOne (term : Term) : Term := Term.call "$subtract" [term, Term.int 1]

def equals (term : Term) (value : Int) : Term := Term.call "$eq" [term, Term.int value]

def dateFromParts (year month day : Term) : Term :=
  Term.apply "$dateFromParts" (Term.fields [("year", year), ("month", month), ("day", day)])

def minusDays (date days : Term) : Term :=
  Term.call "$subtract" [date, Term.call "$multiply" [days, Term.int dayLength]]

section

variable (date : Term)

def yearOf : Term := Term.apply "$year" date

def monthOf : Term := Term.apply "$month" date

def midnight : Term := dateFromParts (yearOf date) (monthOf date) (Term.apply "$dayOfMonth" date)

/-- The quarter: the months divided by three, rounded up. -/
def quarterOf : Term :=
  let months := Term.call "$divide" [monthOf date, Term.int 3]
  let upTo (n : Int) : Term := Term.branch (Term.call "$lte" [months, Term.int n]) (Term.int n)
  Term.switch [upTo 1, upTo 2, upTo 3] (Term.int 4)

def byQuarter (first second third fourth : Int) : Term :=
  let inQuarter (n result : Int) : Term :=
    Term.branch (equals (quarterOf date) n) (Term.int result)
  Term.switch [inQuarter 1 first, inQuarter 2 second, inQuarter 3 third] (Term.int fourth)

def firstDayOfWeekOf : Term := minusDays (midnight date) (minusOne (Term.apply "$dayOfWeek" date))

def firstDayOfIsoWeekOf : Term :=
  minusDays (midnight date) (minusOne (Term.apply "$isoDayOfWeek" date))

def previousMonthOf : Term :=
  Term.cond (equals (monthOf date) 1) (Term.int 12) (minusOne (monthOf date))

/-- The year, or the one before when a test holds. -/
def yearUnless (test : Term) : Term := Term.cond test (minusOne (yearOf date)) (yearOf date)

end

/-- The expression of a part of a date. -/
def ofDate (part : DatePart) (date : Term) : Term :=
  match part with
  | .year => yearOf date
  | .month => monthOf date
  | .day => Term.apply "$dayOfMonth" date
  | .week => Term.apply "$week" date
  | .dayOfYear => Term.apply "$dayOfYear" date
  | .dayOfWeek => Term.apply "$dayOfWeek" date
  | .isoYear => Term.apply "$isoWeekYear" date
  | .isoWeek => Term.apply "$isoWeek" date
  | .isoDayOfWeek => Term.apply "$isoDayOfWeek" date
  | .hour => Term.apply "$hour" date
  | .minutes => Term.apply "$minute" date
  | .seconds => Term.apply "$second" date
  | .milliseconds => Term.apply "$millisecond" date
  | .quarter => quarterOf date
  | .firstDayOfYear => dateFromParts (yearOf date) (Term.int 1) (Term.int 1)
  | .firstDayOfMonth => dateFromParts (yearOf date) (monthOf date) (Term.int 1)
  | .firstDayOfQuarter => dateFromParts (yearOf date) (byQuarter date 1 4 7 10) (Term.int 1)
  | .firstDayOfWeek => firstDayOfWeekOf date
  | .firstDayOfIsoWeek => firstDayOfIsoWeekOf date
  | .previousDay => minusDays (midnight date) (Term.int 1)
  | .firstDayOfPreviousYear =>
    dateFromParts (minusOne (yearOf date)) (Term.int 1) (Term.int 1)
  | .firstDayOfPreviousMonth =>
    dateFromParts (yearUnless date (equals (monthOf date) 1)) (previousMonthOf date) (Term.int 1)
  | .firstDayOfPreviousWeek => minusDays (firstDayOfWeekOf date) (Term.int 7)
  | .firstDayOfPreviousQuarter =>
    dateFromParts (yearUnless date (equals (quarterOf date) 1)) (byQuarter date 10 1 4 7)
      (Term.int 1)
  | .firstDayOfPreviousIsoWeek => minusDays (firstDayOfIsoWeekOf date) (Term.int 7)
  | .previousYear => minusOne (yearOf date)
  | .previousMonth => previousMonthOf date
  | .previousWeek => Term.apply "$week" (minusDays date (Term.int 7))
  | .previousQuarter =>
    Term.cond (equals (quarterOf date) 1) (Term.int 4) (minusOne (quarterOf date))
  | .previousIsoWeek => Term.apply "$isoWeek" (minusDays date (Term.int 7))

/-- The expression that extracts a named part from a column. -/
def extract (name column : String) : Attempt Term :=
  match ofName? name with
  | some part => .ok (part.ofDate (Term.column column))
  | none => Attempt.fail (.unsupportedDatePart name)

end DatePart

end StepQuery
