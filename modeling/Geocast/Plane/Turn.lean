import Geocast.Number.Binary64
import Geocast.Number.Expansion
import Geocast.Plane.Basic

/-!
# On which side of a line a point lies

`turn` has the sign of the area of a triangle. Where no coordinate is tiny it is that area, an exact
integer. Products of tiny coordinates are smaller than the least positive double; there the sign is
that of the determinant in doubles, which takes as many components of an expansion as its error
bounds ask for, and what underflows on the way is lost.
-/
namespace Geocast.Plane

/-- Whether a coordinate is zero or at least `2 ^ -447`, so that products of differences of such
coordinates lose nothing by underflow. -/
def isPlainCoordinate (n : Int) : Bool := n == 0 || 1 <<< 627 ≤ n.natAbs

def Point.isPlain (p : Point) : Bool := isPlainCoordinate p.x && isPlainCoordinate p.y

/-! ## The determinant in doubles -/

/-- Half the distance from one to the next double. -/
def roundoff : Float := 1.1102230246251565e-16

/-- Whether a value is at least as far from zero as a bound on its error. -/
def exceeds (x bound : Float) : Bool := bound ≤ x || bound ≤ -x

/-- The determinant of two vectors from the coordinates and their rounding errors, with all
components of the four products. -/
def fullDeterminant (ux uy vx vy : Rounded) : Float :=
  let values := Expansion.ofProducts ux.value vy.value uy.value vx.value
  let first := Expansion.ofProducts ux.error vy.value uy.error vx.value
  let second := Expansion.ofProducts ux.value vy.error uy.value vx.error
  let errors := Expansion.ofProducts ux.error vy.error uy.error vx.error
  (((values.add first).add second).add errors).leading

/-- The determinant of two vectors, with as many components as its error bounds ask for; `size` is
the magnitude of the sum of its two products. -/
def refinedDeterminant (ux uy vx vy : Rounded) (size : Float) : Float :=
  let det := (Expansion.ofProducts ux.value vy.value uy.value vx.value).estimate
  if exceeds det ((2.0 + 12.0 * roundoff) * roundoff * size) then det
  else if [ux, uy, vx, vy].all (·.error == 0.0) then det
  else
    let bound := (9.0 + 64.0 * roundoff) * roundoff * roundoff * size +
      (3.0 + 8.0 * roundoff) * roundoff * det.abs
    let det := det + ((ux.value * vy.error + vy.value * ux.error) -
      (uy.value * vx.error + vx.value * uy.error))
    if exceeds det bound then det else fullDeterminant ux uy vx vy

/-- The determinant of two vectors from a common point, in doubles. -/
def determinant (ux uy vx vy : Rounded) : Float :=
  let left := ux.value * vy.value
  let right := uy.value * vx.value
  let size := (left + right).abs
  if exceeds (left - right) (3.3306690621773722e-16 * size) then left - right
  else refinedDeterminant ux uy vx vy size

def signOf (x : Float) : Int := if 0.0 < x then 1 else if x < 0.0 then -1 else 0

/-- The side of the line from `a` to `b` on which `p` lies, by the determinant in doubles. -/
def roundedTurn (a b p : Point) : Int :=
  let sub (m n : Int) : Rounded := .sub (Binary64.ofUnits m) (Binary64.ofUnits n)
  signOf (determinant (sub a.x p.x) (sub a.y p.y) (sub b.x p.x) (sub b.y p.y))

/-! ## The side -/

/-- Positive when `p` lies left of the way from `a` to `b`, negative when right of it, zero on the
line. -/
def turn (a b p : Point) : Int :=
  if a.isPlain && b.isPlain && p.isPlain then area a b p else roundedTurn a b p

/-- Points without tiny coordinates are told apart exactly. -/
theorem turn_of_isPlain {a b p : Point} (ha : a.isPlain = true) (hb : b.isPlain = true)
    (hp : p.isPlain = true) : turn a b p = area a b p := by
  simp [turn, ha, hb, hp]

end Geocast.Plane
