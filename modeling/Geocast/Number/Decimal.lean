import Geocast.Number.Binary64

/-!
# Shortest decimals of doubles

`shortest x` is the decimal with the fewest digits that reads back as the finite double `x`, and of
those with that many digits the closest to it; an exact tie goes to the upper one. The selection is
done on integers: the reals that round to `m * 2 ^ q` form an interval with known ends, and a
decimal is compared with them by cross-multiplication.

* `readsBack`: the interval test.
* `shortest`: the selection.
* `plain`: positional text without an exponent, as in messages.
* `pointed`: text with a point or an exponent.
* `ofParts`: the double closest to a decimal.
-/
namespace Geocast

/-- The decimal number `digits * 10 ^ exponent`. -/
structure Decimal where
  digits : Nat
  exponent : Int
  deriving DecidableEq, Repr

namespace Decimal

open Binary64 (significand exponentField fractionField isNegative)

/-! ## Selection -/

def tens (n : Nat) : Nat := Nat.pow 10 n

/-- The order of `a * 10 ^ i` and `n * 2 ^ j`, decided exactly. -/
def compareScaled (a : Nat) (i : Int) (n : Nat) (j : Int) : Ordering :=
  compare ((a * tens i.toNat) <<< (-j).toNat) ((n <<< j.toNat) * tens (-i).toNat)

/-- The double below a power of two is half as far away as the one above it. -/
def narrowBelow (x : Float) : Bool := fractionField x == 0 && 1 < exponentField x

/-- Whether the decimal lies among the reals that round to the magnitude of `x`: between the
halfway points to its two neighbours, the ends included exactly when its significand is even. -/
def readsBack (x : Float) (d : Decimal) : Bool :=
  let m := significand x
  let low := compareScaled d.digits d.exponent (4 * m - if narrowBelow x then 1 else 2)
    (Binary64.exponent x - 2)
  let high := compareScaled d.digits d.exponent (4 * m + 2) (Binary64.exponent x - 2)
  let closed := m % 2 == 0
  (low == .gt || (closed && low == .eq)) && (high == .lt || (closed && high == .eq))

/-- The magnitude of `x` as a fraction. -/
def fraction (x : Float) : Nat × Nat :=
  (significand x <<< (Binary64.exponent x).toNat, 1 <<< (-Binary64.exponent x).toNat)

/-- The magnitude of `x`, in units of `10 ^ e`, as a fraction. -/
def fractionOver (x : Float) (e : Int) : Nat × Nat :=
  let (num, den) := fraction x
  (num * tens (-e).toNat, den * tens e.toNat)

/-- The decimals with the given exponent next to the magnitude of `x` that read back as it; of two
the closer, of two equally close the upper. -/
def onGrid? (x : Float) (e : Int) : Option Decimal :=
  let (num, den) := fractionOver x e
  let below : Decimal := ⟨num / den, e⟩
  let above : Decimal := ⟨num / den + 1, e⟩
  match readsBack x below, readsBack x above with
  | true, true => some (if 2 * (num % den) < den then below else above)
  | true, false => some below
  | false, true => some above
  | false, false => none

/-- Corrects an estimate of the number of digits before the point: the least `k` from `k` on with
the magnitude of `x` below `10 ^ k`. -/
def leastAbove (x : Float) : Nat → Int → Int
  | 0, k => k
  | fuel + 1, k =>
    let (num, den) := fractionOver x k
    if num < den then k else leastAbove x fuel (k + 1)

/-- The number of digits before the point, zero or negative for values below a tenth. -/
def magnitude (x : Float) : Int :=
  let bits : Int := ((significand x).log2 : Int) + Binary64.exponent x
  leastAbove x 4 (bits * 30103 / 100000)

/-- Drops trailing zeros of the digits into the exponent. -/
def normalize : Nat → Decimal → Decimal
  | 0, d => d
  | fuel + 1, d =>
    if d.digits % 10 = 0 && d.digits ≠ 0 then normalize fuel ⟨d.digits / 10, d.exponent + 1⟩ else d

/-- The exact value of the magnitude of `x`. -/
def exact (x : Float) : Decimal :=
  if 0 ≤ Binary64.exponent x then ⟨significand x <<< (Binary64.exponent x).toNat, 0⟩
  else ⟨significand x * Nat.pow 5 (-Binary64.exponent x).toNat, Binary64.exponent x⟩

/-- The decimal with the fewest digits that reads back as the magnitude of a finite double. -/
def shortest (x : Float) : Decimal :=
  if significand x = 0 then ⟨0, 0⟩
  else
    let k := magnitude x
    let found := (List.range 17).findSome? fun (n : Nat) => onGrid? x (k - 1 - n)
    normalize 20 (found.getD (exact x))

/-! ## Text -/

/-- The digits of a natural number as text. -/
def digitsText (n : Nat) : String := String.ofList (Nat.toDigits 10 n)

def zeros (n : Nat) : String := String.ofList (List.replicate n '0')

/-- A decimal written positionally, without a point when it is whole. -/
def positional (d : Decimal) : String :=
  if d.digits = 0 then "0"
  else
    let text := digitsText d.digits
    let places := (-d.exponent).toNat
    if 0 ≤ d.exponent then text ++ zeros d.exponent.toNat
    else
      let padded := (zeros (places + 1 - text.length) ++ text).toList
      let whole := padded.length - places
      String.ofList (padded.take whole) ++ "." ++ String.ofList (padded.drop whole)

/-- A double in messages: shortest digits, positional, no point when whole, a sign for `-0`. -/
def plain (x : Float) : String :=
  if x.isNaN then "NaN"
  else
    let sign := if isNegative x then "-" else ""
    if x.isInf then sign ++ "inf" else sign ++ (shortest x).positional

/-- A decimal with one digit before the point and an exponent. -/
def scientific (d : Decimal) : String :=
  let text := digitsText d.digits
  let head := String.ofList (text.toList.take 1)
  let tail := String.ofList (text.toList.drop 1)
  let power : Int := text.length + d.exponent - 1
  (if tail.isEmpty then head else head ++ "." ++ tail) ++ "e" ++
    (if power < 0 then "-" else "") ++ digitsText power.natAbs

/-- A double that is seen to be one: shortest digits with a point or an exponent. It is positional
from `10 ^ (least - 1)` up to `10 ^ 16`. -/
def pointed (least : Int) (x : Float) : String :=
  if x.isNaN then "NaN"
  else
    let sign := if isNegative x then "-" else ""
    let d := shortest x
    let point : Int := (digitsText d.digits).length + d.exponent
    if x.isInf then sign ++ "inf"
    else if d.digits = 0 then sign ++ "0.0"
    else if 0 ≤ d.exponent ∧ point ≤ 16 then sign ++ d.positional ++ ".0"
    else if least ≤ point ∧ point ≤ 16 then sign ++ d.positional
    else sign ++ d.scientific

/-! ## Reading -/

/-- The double closest to the decimal, ties to the even significand; an infinity where it is too
large. What is far outside the range of doubles is settled by the exponent alone. -/
def toFloat (negative : Bool) (d : Decimal) : Float :=
  let magnitude :=
    if d.digits = 0 ∨ d.exponent + d.digits.log2 < -500 then 0.0
    else if 500 < d.exponent then Binary64.infinity
    else Float.ofScientific d.digits (d.exponent < 0) d.exponent.natAbs
  if negative then -magnitude else magnitude

/-- The value of a list of decimal digits. -/
def ofDigits (cs : List Char) : Nat := cs.foldl (fun n c => 10 * n + (c.toNat - '0'.toNat)) 0

/-- The decimal written with the given digits before and after the point and an exponent. -/
def ofParts (whole fraction : List Char) (exponent : Int) : Decimal :=
  ⟨ofDigits (whole ++ fraction), exponent - fraction.length⟩

end Decimal

end Geocast
