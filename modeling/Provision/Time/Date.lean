/-!
# Dates

Dates of the Gregorian calendar, extended to all years, and their day numbers; day 0 is the first of
January 1970. Years are counted from March, so that the leap day is the last day of its year, and
repeat every 400 years.

* `ofDay` and `toDay` convert.
* A date exists when it is the date of its own day.
-/

namespace Provision

/-- A year, a month and a day of the month. -/
structure Date where
  /-- The year; 0 is the year before 1. -/
  year : Int
  month : Nat
  /-- The day of the month, from 1. -/
  day : Nat
  deriving DecidableEq, Repr

namespace Date

/-- The days between the first of March of the year 0 and day 0. -/
def epoch : Int :=
  719468

/-- The days in 400 years. -/
def cycle : Int :=
  146097

/-- The date of a day. -/
def ofDay (n : Int) : Date :=
  let era : Int := (n + epoch) / cycle
  let doe : Int := (n + epoch) % cycle
  let yoe := (doe - doe / 1460 + doe / 36524 - doe / 146096) / 365
  let doy := doe - (365 * yoe + yoe / 4 - yoe / 100)
  let mp := (5 * doy + 2) / 153
  let day := (doy - (153 * mp + 2) / 5 + 1).toNat
  let month := (if mp < 10 then mp + 3 else mp - 9).toNat
  let year := yoe + era * 400 + (if month ≤ 2 then 1 else 0)
  ⟨year, month, day⟩

/-- The day of a date. -/
def toDay (d : Date) : Int :=
  let year := d.year - (if d.month ≤ 2 then 1 else 0)
  let era := year / 400
  let yoe := year % 400
  let mp : Int := if 2 < d.month then d.month - 3 else d.month + 9
  let doy := (153 * mp + 2) / 5 + d.day - 1
  era * cycle + (yoe * 365 + yoe / 4 - yoe / 100 + doy) - epoch

/-- Whether the calendar has the date. -/
def exists? (d : Date) : Bool :=
  decide (1 ≤ d.month ∧ d.month ≤ 12 ∧ ofDay d.toDay = d)

end Date

end Provision
