/-!
# The proleptic Gregorian calendar

Days are counted from 1 January 1970. Years are taken to begin in March, so that a leap day is the
last day of its year, and are grouped in cycles of 400 years, which all have the same days.
-/
namespace TypedRecord

/-- A day of the calendar. -/
structure CivilDate where
  /-- The year; the year before 1 is 0. -/
  year : Int
  /-- The month, from 1. -/
  month : Nat
  /-- The day of the month, from 1. -/
  day : Nat
deriving DecidableEq, Repr

namespace CivilDate

/-- Whether the year has a 29 February. -/
def isLeap (year : Int) : Bool := year % 4 = 0 && (year % 100 ≠ 0 || year % 400 = 0)

/-- The number of days in a month of a year; none for a month outside 1 to 12. -/
def daysInMonth (year : Int) (month : Nat) : Nat :=
  match month with
  | 2 => if isLeap year then 29 else 28
  | 4 | 6 | 9 | 11 => 30
  | 1 | 3 | 5 | 7 | 8 | 10 | 12 => 31
  | _ => 0

/-- Whether the month and the day occur in the year. -/
def isValid (date : CivilDate) : Bool :=
  1 ≤ date.day && date.day ≤ daysInMonth date.year date.month

/-- Days in a cycle of 400 years. -/
def cycle : Int := 146097

/-- Days from 1 March of the year 0 to 1 January 1970. -/
def marchOrigin : Int := 719468

/-- The number of days from 1 January 1970. -/
def toDays (date : CivilDate) : Int :=
  let year := if date.month ≤ 2 then date.year - 1 else date.year
  let era := year.fdiv 400
  let yearOfEra := year - era * 400
  let monthFromMarch : Int := if date.month ≤ 2 then date.month + 9 else date.month - 3
  let dayOfYear := (153 * monthFromMarch + 2) / 5 + date.day - 1
  let dayOfEra := yearOfEra * 365 + yearOfEra / 4 - yearOfEra / 100 + dayOfYear
  era * cycle + dayOfEra - marchOrigin

/-- The day that many days from 1 January 1970. -/
def ofDays (days : Int) : CivilDate :=
  let shifted := days + marchOrigin
  let era := shifted.fdiv cycle
  let dayOfEra := shifted - era * cycle
  let yearOfEra := (dayOfEra - dayOfEra / 1460 + dayOfEra / 36524 - dayOfEra / 146096) / 365
  let dayOfYear := dayOfEra - (365 * yearOfEra + yearOfEra / 4 - yearOfEra / 100)
  let monthFromMarch := (5 * dayOfYear + 2) / 153
  let day := dayOfYear - (153 * monthFromMarch + 2) / 5 + 1
  let month := if monthFromMarch < 10 then monthFromMarch + 3 else monthFromMarch - 9
  let year := yearOfEra + era * 400 + (if month ≤ 2 then 1 else 0)
  ⟨year, month.toNat, day.toNat⟩

end CivilDate

end TypedRecord
