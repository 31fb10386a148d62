import PocketShell.Text.Column

set_option autoImplicit false

/-! # Dates

A time is a number of seconds since the start of 1970, in universal time. Its date is the
one of the Gregorian calendar, extended to all years. The date of a day number is computed
in closed form over eras of 400 years, that is of 146097 days, which start on a first of
March, so that a leap day is the last day of its year.
-/

namespace PocketShell.Calendar

/-- A day of the Gregorian calendar. Months and days count from one. -/
structure Date where
  year : Nat
  month : Nat
  day : Nat
deriving DecidableEq, Repr

/-- The number of seconds of a day. -/
def secondsPerDay : Nat := 86400

/-- The date of the day that is `days` days after the first of January 1970. -/
def dateOfDay (days : Nat) : Date :=
  let shifted := days + 719468
  let era := shifted / 146097
  let dayOfEra := shifted - era * 146097
  let yearOfEra := (dayOfEra - dayOfEra / 1460 + dayOfEra / 36524 - dayOfEra / 146096) / 365
  let dayOfYear := dayOfEra - (365 * yearOfEra + yearOfEra / 4 - yearOfEra / 100)
  let monthOfYear := (5 * dayOfYear + 2) / 153
  let day := dayOfYear - (153 * monthOfYear + 2) / 5 + 1
  let month := if monthOfYear < 10 then monthOfYear + 3 else monthOfYear - 9
  { year := yearOfEra + era * 400 + (if month ≤ 2 then 1 else 0), month, day }

/-- The date of a time. -/
def dateOf (seconds : Nat) : Date := dateOfDay (seconds / secondsPerDay)

/-- The hours of the day that have passed at a time. -/
def hourOf (seconds : Nat) : Nat := seconds % secondsPerDay / 3600

/-- The minutes of the hour that have passed at a time. -/
def minuteOf (seconds : Nat) : Nat := seconds % secondsPerDay % 3600 / 60

/-- The seconds of the minute that have passed at a time. -/
def secondOf (seconds : Nat) : Nat := seconds % secondsPerDay % 60

/-- The short names of the months. -/
def monthNames : List String :=
  ["Jan", "Feb", "Mar", "Apr", "May", "Jun", "Jul", "Aug", "Sep", "Oct", "Nov", "Dec"]

/-- The short name of a month. -/
def monthName (month : Nat) : String := monthNames.getD (month - 1) ""

/-- The time as a listing shows it, without the year: `Jan  5 09:03`. -/
def listingForm (seconds : Nat) : String :=
  let date := dateOf seconds
  s!"{monthName date.month} {Text.alignRight 2 (toString date.day)} " ++
    s!"{Text.zeroFilled 2 (hourOf seconds)}:{Text.zeroFilled 2 (minuteOf seconds)}"

/-- The time with all its parts: `2024-02-29 12:34:56`. The year has at least four
digits. -/
def fullForm (seconds : Nat) : String :=
  let date := dateOf seconds
  s!"{Text.zeroFilled 4 date.year}-{Text.zeroFilled 2 date.month}-" ++
    s!"{Text.zeroFilled 2 date.day} {Text.zeroFilled 2 (hourOf seconds)}:" ++
    s!"{Text.zeroFilled 2 (minuteOf seconds)}:{Text.zeroFilled 2 (secondOf seconds)}"

end PocketShell.Calendar
