/-!
# The calendar

The days of the calendar are counted from the start of 1970, in both directions without end. A year
that four divides has a leap day, unless a hundred divides it and four hundred does not.

## Main definitions

* `Foreman.Calendar.daysIn`: the days of a month.
* `Foreman.Calendar.dayNumber`, `Foreman.Calendar.ofDayNumber`: the number of a day, and the day of
  a number.
-/

namespace Foreman.Calendar

/-- Whether a year has a leap day. -/
def isLeap (year : Int) : Bool :=
  year % 4 = 0 ∧ (year % 100 ≠ 0 ∨ year % 400 = 0)

/-- The days of a month. -/
def daysIn (year : Int) (month : Nat) : Nat :=
  if month = 2 then (if isLeap year then 29 else 28)
  else if month = 4 ∨ month = 6 ∨ month = 9 ∨ month = 11 then 30
  else 31

/-- The number of a day, counted from the start of 1970. Years are taken to start in March, so that
the leap day ends them, and are grouped by four hundreds. -/
def dayNumber (year : Int) (month day : Nat) : Int :=
  let y := if month ≤ 2 then year - 1 else year
  let ofEra := y % 400
  let monthFromMarch : Int := (month + 9) % 12
  let ofYear := (153 * monthFromMarch + 2) / 5 + day - 1
  y / 400 * 146097 + (ofEra * 365 + ofEra / 4 - ofEra / 100 + ofYear) - 719468

/-- The year, month and day of a number. -/
def ofDayNumber (n : Int) : Int × Nat × Nat :=
  let z := n + 719468
  let ofGroup := z % 146097
  let ofEra := (ofGroup - ofGroup / 1460 + ofGroup / 36524 - ofGroup / 146096) / 365
  let ofYear := ofGroup - (365 * ofEra + ofEra / 4 - ofEra / 100)
  let monthFromMarch := (5 * ofYear + 2) / 153
  let day := ofYear - (153 * monthFromMarch + 2) / 5 + 1
  let month := if monthFromMarch < 10 then monthFromMarch + 3 else monthFromMarch - 9
  let y := ofEra + z / 146097 * 400
  (if month ≤ 2 then y + 1 else y, month.toNat, day.toNat)

end Foreman.Calendar
