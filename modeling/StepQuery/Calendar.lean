import StepQuery.Number.Decimal

/-!
Instants of the proleptic Gregorian calendar, read from the four accepted forms of a date and written
in universal time.  A date is reduced to the number of its day, counted from 1970-01-01, so that the
arithmetic of instants is the arithmetic of whole numbers.
-/

namespace StepQuery

structure Date where
  year : Int
  month : Nat
  day : Nat
deriving DecidableEq, Repr, Inhabited

namespace Date

def isLeap (year : Int) : Bool := year % 4 == 0 && (year % 100 != 0 || year % 400 == 0)

def daysInMonth (year : Int) (month : Nat) : Nat :=
  if month == 2 then (if isLeap year then 29 else 28)
  else if month == 4 || month == 6 || month == 9 || month == 11 then 30
  else 31

def isValid (date : Date) : Bool :=
  1 ≤ date.month && date.month ≤ 12 && 1 ≤ date.day && date.day ≤ daysInMonth date.year date.month

/-- The number of the day.  Years are taken to begin in March, so that the leap day is the last of
its year; 146097 days make four centuries. -/
def number (date : Date) : Int :=
  let year := if date.month ≤ 2 then date.year - 1 else date.year
  let era := year.fdiv 400
  let yearOfEra := year - era * 400
  let shifted : Int := if date.month ≤ 2 then date.month + 9 else date.month - 3
  let dayOfYear := (153 * shifted + 2) / 5 + date.day - 1
  let dayOfEra := yearOfEra * 365 + yearOfEra / 4 - yearOfEra / 100 + dayOfYear
  era * 146097 + dayOfEra - 719468

def ofNumber (number : Int) : Date :=
  let shifted := number + 719468
  let era := shifted.fdiv 146097
  let dayOfEra := shifted - era * 146097
  let yearOfEra := (dayOfEra - dayOfEra / 1460 + dayOfEra / 36524 - dayOfEra / 146096) / 365
  let dayOfYear := dayOfEra - (365 * yearOfEra + yearOfEra / 4 - yearOfEra / 100)
  let monthFromMarch := (5 * dayOfYear + 2) / 153
  let day := dayOfYear - (153 * monthFromMarch + 2) / 5 + 1
  let month := if monthFromMarch < 10 then monthFromMarch + 3 else monthFromMarch - 9
  let year := yearOfEra + era * 400
  ⟨if month ≤ 2 then year + 1 else year, month.toNat, day.toNat⟩

end Date

/-- A point in time: whole seconds since the start of 1970 and the nanoseconds after them. -/
structure Instant where
  seconds : Int
  nanoseconds : Nat
deriving DecidableEq, Repr, Inhabited

namespace Instant

def digit? (character : Char) : Option Nat :=
  if Text.isAsciiDigit character then some (character.toNat - 48) else none

def two? : List Char → Option (Nat × List Char)
  | tens :: ones :: rest => do return (10 * (← digit? tens) + (← digit? ones), rest)
  | _ => none

def oneOrTwo? : List Char → Option (Nat × List Char)
  | first :: rest => do
    let high ← digit? first
    match rest with
    | second :: others =>
      match digit? second with
      | some low => return (10 * high + low, others)
      | none => return (high, rest)
    | [] => return (high, [])
  | [] => none

def after? (mark : Char) : List Char → Option (List Char)
  | first :: rest => if first == mark then some rest else none
  | [] => none

/-- A day written `year-month-day` with four, two and two digits. -/
def date? (input : List Char) : Option (Date × List Char) := do
  let (century, rest) ← two? input
  let (year, rest) ← two? rest
  let rest ← after? '-' rest
  let (month, rest) ← two? rest
  let rest ← after? '-' rest
  let (day, rest) ← two? rest
  let date : Date := ⟨100 * century + year, month, day⟩
  if date.isValid then return (date, rest) else none

/-- The nanoseconds of a fraction, further digits dropped. -/
def fraction (digits : List Char) : Nat :=
  let kept := digits.take 9
  Decimal.digitsValue kept * tenTo (9 - kept.length)

/-- An optional fraction of a second after a point or a comma. -/
def fraction? (input : List Char) : Nat × List Char :=
  match input with
  | mark :: rest =>
    let digits := rest.takeWhile Text.isAsciiDigit
    if (mark == '.' || mark == ',') && !digits.isEmpty then
      (fraction digits, rest.dropWhile Text.isAsciiDigit)
    else (0, input)
  | [] => (0, [])

/-- The time of day in seconds and nanoseconds.  The hour may have one digit. -/
def clock? (input : List Char) : Option (Nat × Nat × List Char) := do
  let (hour, rest) ← oneOrTwo? input
  let rest ← after? ':' rest
  let (minute, rest) ← two? rest
  let rest ← after? ':' rest
  let (second, rest) ← two? rest
  if hour < 24 && minute < 60 && second < 60 then
    let (nanoseconds, rest) := fraction? rest
    return (3600 * hour + 60 * minute + second, nanoseconds, rest)
  else none

/-- The distance of a zone from universal time, in seconds.  Zones up to 24 hours and 60 minutes
are taken. -/
def zone? (input : List Char) : Option (Int × List Char) :=
  match input with
  | 'Z' :: rest => some (0, rest)
  | sign :: rest => do
    let (hours, rest) ← two? rest
    let rest ← after? ':' rest
    let (minutes, rest) ← two? rest
    if 24 < hours || 60 < minutes then none
    else
      let offset : Int := 3600 * hours + 60 * minutes
      if sign == '+' then return (offset, rest)
      else if sign == '-' then return (-offset, rest)
      else none
  | [] => none

def atClock (date : Date) (seconds nanoseconds : Nat) (offset : Int) : Instant :=
  ⟨date.number * 86400 + seconds - offset, nanoseconds⟩

/-- `2024-04-15T10:30:00Z`, with a zone. -/
def zoned? (input : List Char) : Option Instant := do
  let (date, rest) ← date? input
  let rest ← after? 'T' rest
  let (seconds, nanoseconds, rest) ← clock? rest
  let (offset, rest) ← zone? rest
  if rest.isEmpty then return atClock date seconds nanoseconds offset else none

/-- `2024-04-15T10:30:00`. -/
def local? (input : List Char) : Option Instant := do
  let (date, rest) ← date? input
  let rest ← after? 'T' rest
  let (seconds, nanoseconds, rest) ← clock? rest
  if rest.isEmpty then return atClock date seconds nanoseconds 0 else none

/-- `2024-04-15 10:30:00`, with one space or more. -/
def spaced? (input : List Char) : Option Instant := do
  let (date, rest) ← date? input
  let rest ← after? ' ' rest
  let (seconds, nanoseconds, rest) ← clock? (rest.dropWhile (· == ' '))
  if rest.isEmpty then return atClock date seconds nanoseconds 0 else none

/-- `2024-04-15`, the start of the day. -/
def midnight? (input : List Char) : Option Instant := do
  let (date, rest) ← date? input
  if rest.isEmpty then return atClock date 0 0 0 else none

/-- Read an instant in the first of the four forms that fits. -/
def ofText? (input : List Char) : Option Instant :=
  zoned? input <|> local? input <|> spaced? input <|> midnight? input

def date (instant : Instant) : Date := Date.ofNumber (instant.seconds.fdiv 86400)

/-- The digits of a number, zeros before them up to a width. -/
def padded (width n : Nat) : List Char :=
  let digits := Decimal.digits n
  List.replicate (width - digits.length) '0' ++ digits

def yearText (year : Int) : List Char :=
  if year < 0 then '-' :: padded 4 year.natAbs else padded 4 year.natAbs

/-- The fraction of a second without trailing zeros, nothing when it is zero. -/
def fractionText (nanoseconds : Nat) : List Char :=
  if nanoseconds == 0 then []
  else '.' :: ((padded 9 nanoseconds).reverse.dropWhile (· == '0')).reverse

/-- The instant in universal time. -/
def text (instant : Instant) : String :=
  let date := instant.date
  let second := (instant.seconds - instant.seconds.fdiv 86400 * 86400).toNat
  String.ofList (yearText date.year ++ '-' :: padded 2 date.month ++ '-' :: padded 2 date.day ++
    'T' :: padded 2 (second / 3600) ++ ':' :: padded 2 (second / 60 % 60) ++
    ':' :: padded 2 (second % 60) ++ fractionText instant.nanoseconds ++ ['Z'])

end Instant

end StepQuery
