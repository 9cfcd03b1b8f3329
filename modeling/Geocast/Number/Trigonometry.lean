import Geocast.Number.Binary64

/-!
# Elementary functions of doubles

Sine, cosine, arcsine and the angle of a point of the first quadrant, computed in fixed point with
`precision` fractional bits and rounded once to the nearest double. The series are the ordinary
power series; arguments are reduced by quarter turns (sine, cosine) or by the angle of a nearby
simple fraction (arctangent) so that few terms are needed. Results are within one unit in the last
place of the true value, and nearly always the closest double to it.

Signs are taken off first and put back last, so `sin (-x) = -sin x` holds by construction.
-/
namespace Geocast.Trigonometry

open Geocast.Binary64 (nearest unitsAbs isNegative significand scale exponentField)

/-! ## Fixed point -/

/-- Fractional bits of the fixed-point numbers of this module. -/
def precision : Nat := 128

/-- The number one in fixed point. -/
def one : Nat := 1 <<< precision

def mul (a b : Nat) : Nat := (a * b) >>> precision

def div (a b : Nat) : Nat := (a <<< precision) / b

/-- One descent of Newton's method for the square root of `n`, until it stops falling. -/
def descend (n : Nat) : Nat → Nat → Nat
  | 0, x => x
  | fuel + 1, x =>
    let y := (x + n / x) / 2
    if y < x then descend n fuel y else x

/-- The integer part of the square root of `n`. -/
def squareRoot (n : Nat) : Nat :=
  if n = 0 then 0 else descend n (n.log2 + 1) (1 <<< (n.log2 / 2 + 1))

/-! ## The number pi -/

/-- Fractional bits of `halfPi`: enough to reduce the largest double. -/
def widePrecision : Nat := 1216

/-- The alternating sum `power / k - power / (n * n) / (k + 2) + …`, until the power vanishes. -/
def arctanInverseSum (n : Nat) : Nat → Nat → Nat → Int
  | 0, _, _ => 0
  | fuel + 1, power, k =>
    if power = 0 then 0
    else (power / k : Nat) - arctanInverseSum n fuel (power / (n * n)) (k + 2)

/-- The arctangent of `1 / n`, with `bits` fractional bits. -/
def arctanInverse (n bits : Nat) : Int := arctanInverseSum n bits ((1 <<< bits) / n) 1

/-- A quarter turn, `8 * arctan (1 / 5) - 2 * arctan (1 / 239)`, with `widePrecision` bits. -/
def halfPi : Nat :=
  let bits := widePrecision + 32
  (8 * arctanInverse 5 bits - 2 * arctanInverse 239 bits).toNat >>> 32

/-- A quarter turn with `precision` fractional bits. -/
def quarterTurn : Nat := halfPi >>> (widePrecision - precision)

/-! ## Series -/

/-- The alternating power series whose next term is `term`, and each later one the term before
times `r * r / (k * (k + 1))`. -/
def alternating (square : Nat) : Nat → Nat → Nat → Int
  | 0, _, _ => 0
  | fuel + 1, term, k =>
    if term = 0 then 0
    else (term : Int) - alternating square fuel (mul term square / (k * (k + 1))) (k + 2)

/-- The sine of a fixed-point angle up to half a right angle. -/
def sinSmall (r : Nat) : Nat := (alternating (mul r r) 64 r 2).toNat

/-- The cosine of a fixed-point angle up to half a right angle. -/
def cosSmall (r : Nat) : Nat := (alternating (mul r r) 64 one 1).toNat

/-- The sine of a fixed-point angle up to a right angle. -/
def sinAcute (r : Nat) : Nat :=
  if 2 * r ≤ quarterTurn then sinSmall r else cosSmall (quarterTurn - r)

/-- The sum `power - power * t * t / 3 + power * t ^ 4 / 5 - …`. -/
def arctanSum (square : Nat) : Nat → Nat → Nat → Int
  | 0, _, _ => 0
  | fuel + 1, power, k =>
    if power = 0 then 0
    else (power / k : Nat) - arctanSum square fuel (mul power square) (k + 2)

def arctanSmall (t : Nat) : Nat := (arctanSum (mul t t) 64 t 1).toNat

/-- The tangent of half the angle whose tangent is `t`. -/
def halveTangent (t : Nat) : Nat := div t (one + squareRoot (one * one + t * t))

/-- The arctangent of a fixed-point number up to one: the angle is halved three times. -/
def arctanByHalving (t : Nat) : Nat :=
  8 * arctanSmall (halveTangent (halveTangent (halveTangent t)))

/-- Bits of the denominator of the fractions whose angles are known. -/
def nodeBits : Nat := 5

/-- The angles whose tangents are `0 / 32`, `1 / 32`, …, `32 / 32`. -/
def nodeAngles : Array Nat :=
  (Array.range 33).map fun (k : Nat) => arctanByHalving (k <<< (precision - nodeBits))

/-- The arctangent of a fixed-point number up to one: the angle of the closest fraction that is
known, and the angle between the two. -/
def arctanUnit (t : Nat) : Nat :=
  let k := ((t >>> (precision - nodeBits - 1)) + 1) / 2
  let node := k <<< (precision - nodeBits)
  let below := arctanSmall (div (node - t) (one + mul t node))
  let above := arctanSmall (div (t - node) (one + mul t node))
  nodeAngles.getD k 0 + above - below

/-- The angle of the point with fixed-point coordinates `x`, `y`, from the `x` axis. -/
def angle (x y : Nat) : Nat :=
  if y ≤ x then arctanUnit (div y x) else quarterTurn - arctanUnit (div x y)

/-! ## Functions of doubles -/

/-- Fractional bits for taking quarter turns off a double: the larger it is, the more of them get
lost. -/
def turnBits (x : Float) : Nat := min widePrecision (precision + 64 + (exponentField x - 1023))

/-- Whole quarter turns of a magnitude that is not tiny, and the rest as a fixed-point angle. -/
def quarterTurns (x : Float) : Nat × Nat :=
  let bits := turnBits x
  let turn := halfPi >>> (widePrecision - bits)
  let angle := significand x <<< (bits + scale x - 1074)
  (angle / turn, (angle % turn) >>> (bits - precision))

/-- Below this magnitude the sine of a double is the double itself, after rounding. -/
def tiny : Float := 7.450580596923828e-9

/-- The sine of an angle in radians. -/
def sin (x : Float) : Float :=
  if !x.isFinite then Binary64.nan
  else if x.abs < tiny then x
  else
    let (turns, rest) := quarterTurns x
    let value := if turns % 2 = 0 then sinAcute rest else sinAcute (quarterTurn - rest)
    nearest (isNegative x != decide (2 ≤ turns % 4)) value (-precision)

/-- The cosine of an angle in radians. -/
def cos (x : Float) : Float :=
  if !x.isFinite then Binary64.nan
  else if x.abs < tiny then 1.0
  else
    let (turns, rest) := quarterTurns x
    let value := if turns % 2 = 0 then sinAcute (quarterTurn - rest) else sinAcute rest
    nearest (decide (1 ≤ turns % 4) && decide (turns % 4 ≤ 2)) value (-precision)

/-- The magnitude of a double as a fixed-point number, cut below `2 ^ -precision`. -/
def fixedAbs (x : Float) : Nat := unitsAbs x >>> (1074 - precision)

/-- The angle in radians, between two right angles' halves, whose sine is `x`; no number outside
`[-1, 1]`. -/
def arcsin (x : Float) : Float :=
  if x.isNaN || 1.0 < x.abs then Binary64.nan
  else if x.abs < tiny then x
  else
    let s := fixedAbs x
    nearest (isNegative x) (angle (squareRoot (one * one - s * s)) s) (-precision)

/-- The angle in radians of the point `(x, y)` of the closed first quadrant, from the `x` axis; no
number if a coordinate is none. -/
def polarAngle (x y : Float) : Float :=
  if x.isNaN || y.isNaN then Binary64.nan
  else if y == 0.0 then 0.0
  else if y / x < tiny then y / x
  else
    let dx := unitsAbs x
    let dy := unitsAbs y
    let value := if dy ≤ dx then arctanUnit (div dy dx) else quarterTurn - arctanUnit (div dx dy)
    nearest false value (-precision)

end Geocast.Trigonometry
