import Geocast.Number.Decimal

/-!
# Dates

The date and time of day, in universal time, of a number of milliseconds since the beginning of
1970.

`civil` counts in years that begin with March, so that a leap day is the last day of its year; a
period of four hundred such years always has the same number of days.
-/
namespace Geocast.Calendar

structure Date where
  year : Nat
  month : Nat
  day : Nat
  deriving DecidableEq, Repr

def isLeap (year : Nat) : Bool := year % 4 == 0 && (year % 100 != 0 || year % 400 == 0)

def daysOf (year month : Nat) : Nat :=
  if month = 2 then if isLeap year then 29 else 28
  else if month = 4 || month = 6 || month = 9 || month = 11 then 30
  else 31

/-- The day that is a number of days after the first of January 1970. -/
def civil (days : Nat) : Date :=
  let z := days + 719468
  let period := z / 146097
  let ofPeriod := z % 146097
  let year := (ofPeriod - ofPeriod / 1460 + ofPeriod / 36524 - ofPeriod / 146096) / 365
  let ofYear := ofPeriod - (365 * year + year / 4 - year / 100)
  let month := (5 * ofYear + 2) / 153
  let day := ofYear - (153 * month + 2) / 5 + 1
  let beginsNext := 10 ≤ month
  ⟨period * 400 + year + (if beginsNext then 1 else 0),
    if beginsNext then month - 9 else month + 3, day⟩

def padded (width n : Nat) : String :=
  let text := Decimal.digitsText n
  Decimal.zeros (width - text.length) ++ text

/-- A year of four digits; later years have a plus. -/
def yearText (year : Nat) : String :=
  if year < 10000 then padded 4 year else "+" ++ Decimal.digitsText year

/-- The last millisecond that has a date. -/
def lastMillisecond : Int := 8210266876799999

/-- The text of a time, `year-month-day hour:minute:second.millisecond`. Times up to the beginning
of 1970 and after the last day of the calendar have none. -/
def display (milliseconds : Int) : String :=
  if milliseconds ≤ 0 || lastMillisecond < milliseconds then ""
  else
    let t := milliseconds.toNat
    let date := civil (t / 86400000)
    yearText date.year ++ "-" ++ padded 2 date.month ++ "-" ++ padded 2 date.day ++ " " ++
      padded 2 (t / 3600000 % 24) ++ ":" ++ padded 2 (t / 60000 % 60) ++ ":" ++
      padded 2 (t / 1000 % 60) ++ "." ++ padded 3 (t % 1000)

end Geocast.Calendar
