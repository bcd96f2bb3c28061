/-!
# Points in time

A point in time is a number of seconds since the start of 1970 in universal
time.  It is shown as a date of the Gregorian calendar with a time of day.  The
date is found by counting off whole years and then whole months.

Main results:

- Theorem `yearLength_pos`: every year has a day, so counting off years ends.
-/

namespace CalendarStamp.Instant

/-! ## The calendar -/

/-- Every fourth year is a leap year, but of the full centuries only every fourth. -/
def isLeapYear (year : Nat) : Bool :=
  year % 4 = 0 && (year % 100 ≠ 0 || year % 400 = 0)

/-- The number of days of a year. -/
def yearLength (year : Nat) : Nat :=
  if isLeapYear year then 366 else 365

/-- The numbers of days of the months of a year. -/
def monthLengths (year : Nat) : List Nat :=
  [31, if isLeapYear year then 29 else 28, 31, 30, 31, 30, 31, 31, 30, 31, 30, 31]

/-- Every year has a day. -/
theorem yearLength_pos (year : Nat) : 0 < yearLength year := by
  unfold yearLength
  split <;> decide

/-! ## Dates -/

/-- A date; months and days count from one. -/
structure Date where
  year : Nat
  month : Nat
  day : Nat
deriving DecidableEq

/-- Count off whole years; return the year and the days into it. -/
def countYears (year days : Nat) : Nat × Nat :=
  if days < yearLength year then
    (year, days)
  else
    countYears (year + 1) (days - yearLength year)
termination_by days
decreasing_by
  have := yearLength_pos year
  omega

/-- Count off whole months; return the month and the days into it. -/
def countMonths (month days : Nat) : List Nat → Nat × Nat
  | [] => (month, days)
  | length :: lengths =>
    if days < length then (month, days) else countMonths (month + 1) (days - length) lengths

/-- The year that times count from. -/
def epochYear : Nat := 1970

/-- The date some days after the first of January 1970. -/
def dateOfDays (days : Nat) : Date :=
  let (year, dayOfYear) := countYears epochYear days
  let (month, dayOfMonth) := countMonths 1 dayOfYear (monthLengths year)
  ⟨year, month, dayOfMonth + 1⟩

/-! ## Texts -/

/-- The decimal digits of a number, filled up with zeros to a width. -/
def padded (width n : Nat) : List Char :=
  let digits := Nat.toDigits 10 n
  List.replicate (width - digits.length) '0' ++ digits

/-- A date and a time of day, to the millisecond and in universal time. -/
def writeTime (date : Date) (secondOfDay : Nat) : List Char :=
  padded 4 date.year ++ '-' :: padded 2 date.month ++ '-' :: padded 2 date.day ++
    'T' :: padded 2 (secondOfDay / 3600) ++ ':' :: padded 2 (secondOfDay / 60 % 60) ++
    ':' :: padded 2 (secondOfDay % 60) ++ ['.', '0', '0', '0', 'Z']

/-- The text of a point in time. -/
def text (seconds : UInt32) : String :=
  let secondsPerDay := 86400
  String.ofList
    (writeTime (dateOfDays (seconds.toNat / secondsPerDay)) (seconds.toNat % secondsPerDay))

end CalendarStamp.Instant
