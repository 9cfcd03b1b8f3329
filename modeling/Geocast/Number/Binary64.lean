/-!
# Doubles as exact integers

A finite double is `m * 2 ^ q` for a natural `m` and an integer `q`; it is also a whole number of
units of `2 ^ -1074`, the least positive double. Everything in this library that must be decided
exactly (orientation of points, shortest digits, cell indices) is decided on these integers.

* `significand`, `exponent`: the magnitude of a finite double is `significand * 2 ^ exponent`.
* `units`: a finite double in units of `2 ^ -1074`.
* `floor`: the largest integer that is not above a finite double.
* `nearest`: the double closest to `m * 2 ^ e`, ties to the even significand; `ofUnits` and
  `roundUnits` for a number of units.
-/
namespace Geocast.Binary64

/-- Exact halves of a rounded quotient go to the even neighbour or to the upper one. -/
inductive Tie where
  | even
  | up
  deriving DecidableEq, Repr

/-- The quotient `num / den` rounded to the nearest natural number. -/
def roundDiv (num den : Nat) (tie : Tie) : Nat :=
  let q := num / den
  let twice := 2 * (num % den)
  if twice < den then q
  else if den < twice then q + 1
  else match tie with
    | .up => q + 1
    | .even => q + q % 2

/-! ## Fields of a double -/

/-- The sign bit; it is set for `-0.0` too. -/
def isNegative (x : Float) : Bool := x.toBits >>> 63 == 1

/-- The eleven bits of the biased exponent. -/
def exponentField (x : Float) : Nat := ((x.toBits >>> 52) &&& 0x7FF).toNat

/-- The fifty-two bits below the leading one. -/
def fractionField (x : Float) : Nat := (x.toBits &&& 0xFFFFFFFFFFFFF).toNat

/-- The natural number `m` of the magnitude `m * 2 ^ q` of a finite double. -/
def significand (x : Float) : Nat :=
  if exponentField x = 0 then fractionField x else 0x10000000000000 + fractionField x

/-- The exponent `q` of the magnitude `m * 2 ^ q`, plus 1074: never negative. -/
def scale (x : Float) : Nat := exponentField x - 1

/-- The exponent `q` of the magnitude `m * 2 ^ q` of a finite double. -/
def exponent (x : Float) : Int := (scale x : Int) - 1074

/-- The magnitude of a finite double in units of `2 ^ -1074`. -/
def unitsAbs (x : Float) : Nat := significand x <<< scale x

/-- A finite double in units of `2 ^ -1074`. NaN and the infinities have no such value; test for
them first. -/
def units (x : Float) : Int :=
  if isNegative x then -(unitsAbs x : Int) else (unitsAbs x : Int)

/-- The largest integer that is not above a finite double. -/
def floor (x : Float) : Int := (units x).shiftRight 1074

/-! ## Back to doubles -/

/-- The double closest to `m * 2 ^ e` with the given sign, ties to the even significand.

The significand is cut to 53 bits, or to fewer where the result is subnormal. A carry out of the
rounded significand runs into the exponent field, which is where it belongs, and past the largest
exponent it gives infinity. -/
def nearest (negative : Bool) (m : Nat) (e : Int) : Float :=
  let sign : UInt64 := if negative then 0x8000000000000000 else 0
  if m = 0 then Float.ofBits sign
  else
    let target : Int := Max.max ((m.log2 : Int) + e - 52) (-1074)
    let shift := target - e
    let cut := if 0 ≤ shift then roundDiv m (1 <<< shift.toNat) .even else m <<< (-shift).toNat
    let magnitude := ((target + 1074).toNat <<< 52) + cut
    if magnitude < 0x7FF0000000000000 then Float.ofBits (sign ||| magnitude.toUInt64)
    else Float.ofBits (sign ||| 0x7FF0000000000000)

/-- The double closest to a number of units. -/
def ofUnits (n : Int) : Float := nearest (n < 0) n.natAbs (-1074)

/-- A number of units rounded to that of a double. -/
def roundUnits (n : Int) : Int := units (ofUnits n)

def nan : Float := 0.0 / 0.0

def infinity : Float := 1.0 / 0.0

/-- The smaller of two doubles; of a number and NaN, the number. -/
def min (x y : Float) : Float :=
  if x.isNaN then y else if y.isNaN then x else if y < x then y else x

/-- The larger of two doubles; of a number and NaN, the number. -/
def max (x y : Float) : Float :=
  if x.isNaN then y else if y.isNaN then x else if x < y then y else x

end Geocast.Binary64
