import Tenured.Text.Numeral

/-!
# Timestamps

A moment is a number of milliseconds since the start of 1970, which may be negative.
`Text.timestamp` writes it as a date and a time of day in the Gregorian calendar, without a time
zone. Years from 0 to 9999 have four digits; the others have a sign and at least four digits.

The calendar repeats after 400 years, which are 146097 days. Within such an era the years are
counted from March on, so that a leap day is the last day of its year.
-/

namespace Tenured.Text

/-- A day of the Gregorian calendar. -/
structure Date where
  year : Int
  month : Nat
  day : Nat
deriving DecidableEq

namespace Date

/-- The days of an era before its year `y`, counted from March on. -/
def daysBefore (y : Nat) : Nat :=
  y * 365 + y / 4 - y / 100

/-- The year of an era, counted from March on, in which its day `d` lies. -/
def yearOfEra (d : Nat) : Nat :=
  (d - d / 1460 + d / 36524 - d / 146096) / 365

/-- The date of a day, counted from the first of January 1970. -/
def ofDays (days : Int) : Date :=
  let shifted := days + 719468
  let era := shifted.fdiv 146097
  let dayOfEra := (shifted.fmod 146097).toNat
  let yearOfEra := yearOfEra dayOfEra
  let dayOfYear := dayOfEra - daysBefore yearOfEra
  let march := (5 * dayOfYear + 2) / 153
  let day := dayOfYear - (153 * march + 2) / 5 + 1
  let month := if march < 10 then march + 3 else march - 9
  let year := era * 400 + yearOfEra + if month ≤ 2 then 1 else 0
  ⟨year, month, day⟩

-- A leap day.
example : ofDays 11016 = ⟨2000, 2, 29⟩ := by decide

/-- The written form of a year. -/
def yearText (year : Int) : String :=
  if year < 0 then "-" ++ padded 4 year.natAbs
  else if 9999 < year then "+" ++ padded 4 year.natAbs
  else padded 4 year.natAbs

/-- The written form of a date. -/
protected def toString (d : Date) : String :=
  yearText d.year ++ "-" ++ padded 2 d.month ++ "-" ++ padded 2 d.day

end Date

/-- The date and the time of day of a moment. -/
def timestamp (millis : Int) : String :=
  let time := (millis.fmod 86400000).toNat
  (Date.ofDays (millis.fdiv 86400000)).toString ++ " " ++ padded 2 (time / 3600000) ++ ":" ++
    padded 2 (time / 60000 % 60) ++ ":" ++ padded 2 (time / 1000 % 60) ++ "." ++
    padded 3 (time % 1000)

end Tenured.Text
