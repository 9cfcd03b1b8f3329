import Geocast.Calendar

/-!
# Dates and times in settings files

A moment is a date, a time of day, or a date with a time of day and perhaps an offset from universal
time. A time of day may leave out the second, or its fraction. A moment may be written in several
ways: with a blank or a small letter between date and time, with a small letter for universal time,
with zeros at the end of a fraction.

* `Moment.read?`: the moment that a text names. Months, days, hours, minutes and seconds must exist;
  a minute may have a leap second. Of a fraction of a second nine digits count.
* `Moment.display`: the one form of a moment that settings get.
-/
namespace Geocast

structure Second where
  whole : Nat
  nanosecond : Option Nat
  deriving DecidableEq, Repr

structure TimeOfDay where
  hour : Nat
  minute : Nat
  second : Option Second
  deriving DecidableEq, Repr

/-- Universal time, or a number of minutes ahead of it. -/
inductive Zone where
  | universal
  | ahead (minutes : Int)
  deriving DecidableEq, Repr

inductive Moment where
  | date (day : Calendar.Date)
  | time (time : TimeOfDay)
  | both (day : Calendar.Date) (time : TimeOfDay) (zone : Option Zone)
  deriving DecidableEq, Repr

namespace Moment

/-! ## Reading -/

/-- A number of exactly `width` digits between two bounds, and what follows it. -/
def number? (width least most : Nat) (cs : List Char) : Option (Nat × List Char) :=
  let digits := cs.take width
  let n := Decimal.ofDigits digits
  if digits.length = width && digits.all Char.isDigit && least ≤ n && n ≤ most then
    some (n, cs.drop width)
  else none

/-- What follows a character. -/
def after? (c : Char) : List Char → Option (List Char)
  | [] => none
  | d :: rest => if c == d then some rest else none

/-- A date, `year-month-day`, and what follows it. -/
def date? (cs : List Char) : Option (Calendar.Date × List Char) := do
  let (year, cs) ← number? 4 0 9999 cs
  let (month, cs) ← number? 2 1 12 (← after? '-' cs)
  let (day, cs) ← number? 2 1 (Calendar.daysOf year month) (← after? '-' cs)
  pure (⟨year, month, day⟩, cs)

/-- The nanoseconds of a fraction of a second, which may be missing, and what follows it. -/
def nanosecond (cs : List Char) : Option Nat × List Char :=
  match cs with
  | '.' :: rest =>
    let digits := rest.takeWhile Char.isDigit
    if digits.isEmpty then (none, cs)
    else (some (Decimal.ofDigits ((digits ++ List.replicate 9 '0').take 9)),
      rest.drop digits.length)
  | _ => (none, cs)

/-- The second of a time of day, which may be missing, and what follows it. -/
def second? (cs : List Char) : Option (Option Second × List Char) :=
  match cs with
  | ':' :: rest => do
    let (whole, rest) ← number? 2 0 60 rest
    let (fraction, rest) := nanosecond rest
    pure (some ⟨whole, fraction⟩, rest)
  | _ => some (none, cs)

/-- A time of day, `hour:minute`, perhaps `:second`, perhaps with a fraction, and what follows. -/
def time? (cs : List Char) : Option (TimeOfDay × List Char) := do
  let (hour, cs) ← number? 2 0 23 cs
  let (minute, cs) ← number? 2 0 59 (← after? ':' cs)
  let (second, cs) ← second? cs
  pure (⟨hour, minute, second⟩, cs)

/-- The offset that a whole text names; an empty text names none. -/
def zone? : List Char → Option (Option Zone)
  | [] => some none
  | c :: cs =>
    if c == 'Z' || c == 'z' then if cs.isEmpty then some (some .universal) else none
    else if c == '+' || c == '-' then do
      let (hours, cs) ← number? 2 0 23 cs
      let (minutes, cs) ← number? 2 0 59 (← after? ':' cs)
      let n : Int := hours * 60 + minutes
      if cs.isEmpty then pure (some (.ahead (if c == '-' then -n else n))) else none
    else none

/-- The moment that a whole text names. -/
def read? (cs : List Char) : Option Moment :=
  match date? cs with
  | none =>
    match time? cs with
    | some (t, []) => some (.time t)
    | _ => none
  | some (d, []) => some (.date d)
  | some (d, c :: cs) =>
    if c == 'T' || c == 't' || c == ' ' then do
      let (t, cs) ← time? cs
      pure (.both d t (← zone? cs))
    else none

/-! ## Text -/

def displayDate (d : Calendar.Date) : String :=
  Calendar.padded 4 d.year ++ "-" ++ Calendar.padded 2 d.month ++ "-" ++ Calendar.padded 2 d.day

/-- The text of a fraction of a second, without zeros at its end but with one digit at least. -/
def displayFraction (nanosecond : Nat) : String :=
  let digits := (Calendar.padded 9 nanosecond).toList.reverse.dropWhile (· == '0')
  "." ++ (if digits.isEmpty then "0" else String.ofList digits.reverse)

def displaySecond (s : Second) : String :=
  ":" ++ Calendar.padded 2 s.whole ++ (s.nanosecond.map displayFraction).getD ""

def displayTime (t : TimeOfDay) : String :=
  Calendar.padded 2 t.hour ++ ":" ++ Calendar.padded 2 t.minute ++
    (t.second.map displaySecond).getD ""

def displayZone : Zone → String
  | .universal => "Z"
  | .ahead minutes =>
    (if minutes < 0 then "-" else "+") ++ Calendar.padded 2 (minutes.natAbs / 60) ++ ":" ++
      Calendar.padded 2 (minutes.natAbs % 60)

def display : Moment → String
  | date d => displayDate d
  | time t => displayTime t
  | both d t zone => displayDate d ++ "T" ++ displayTime t ++ (zone.map displayZone).getD ""

end Moment

end Geocast
