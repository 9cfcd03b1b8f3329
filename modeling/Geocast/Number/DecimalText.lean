import Geocast.Number.Decimal

/-!
# Doubles written as text

The free form of a double: an optional sign, then digits with an optional point and an optional
exponent, or `inf`, `infinity` or `nan` in any case. At least one digit must stand before the
exponent; the point may lead or trail.
-/
namespace Geocast.DecimalText

/-- An optional sign: whether it is a minus, and what follows. -/
def sign : List Char → Bool × List Char
  | '-' :: rest => (true, rest)
  | '+' :: rest => (false, rest)
  | cs => (false, cs)

/-- The exponent after the digits: nothing, or an `e` with a whole number. -/
def exponent? : List Char → Option Int
  | [] => some 0
  | c :: rest =>
    let (negative, ds) := sign rest
    if (c == 'e' || c == 'E') && !ds.isEmpty && ds.all Char.isDigit then
      let n : Int := Decimal.ofDigits ds
      some (if negative then -n else n)
    else none

/-- The digits before and after the point, and what follows them. -/
def digits (cs : List Char) : List Char × List Char × List Char :=
  let whole := cs.takeWhile Char.isDigit
  match cs.dropWhile Char.isDigit with
  | '.' :: rest => (whole, rest.takeWhile Char.isDigit, rest.dropWhile Char.isDigit)
  | rest => (whole, [], rest)

/-- The decimal with the given text, without a sign. -/
def decimal? (cs : List Char) : Option Decimal :=
  let (whole, fraction, rest) := digits cs
  if whole.isEmpty && fraction.isEmpty then none
  else (exponent? rest).map fun e => Decimal.ofParts whole fraction e

def parse? (s : String) : Option Float :=
  let (negative, cs) := sign s.toList
  let word := String.ofList (cs.map Char.toLower)
  if word == "nan" then some Binary64.nan
  else if word == "inf" || word == "infinity" then
    some (if negative then -Binary64.infinity else Binary64.infinity)
  else (decimal? cs).map (Decimal.toFloat negative)

end Geocast.DecimalText
