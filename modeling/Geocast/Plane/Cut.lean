import Geocast.Plane.Meeting
import Geocast.Plane.Outline

/-!
# Where outlines cut each other

An outline is cut at the points where another one touches it. Cuts are ordered along the outline.
Distances are compared after rounding to doubles, so cuts that are very close together count as one.
-/
namespace Geocast.Plane

/-- A point of an outline, by the corner before it and its distance from that corner. -/
structure Cut where
  corner : Nat
  distance : Nat
  point : Point
  deriving DecidableEq, Repr

namespace Cut

/-- The distance of a point of an edge from its source, along the axis on which the edge is
longer, rounded to a double. -/
def distanceOn (e : Edge) (p : Point) : Nat :=
  let along (q : Point) : Nat × Nat :=
    ((Binary64.roundUnits (q.x - e.source.x)).natAbs,
      (Binary64.roundUnits (q.y - e.source.y)).natAbs)
  let whole := along e.target
  let part := along p
  let d := if whole.2 < whole.1 then part.1 else part.2
  if d = 0 then max part.1 part.2 else d

/-- The cut at a point of the edge behind a corner. The target of the edge is the next corner. -/
def ofPoint (corner : Nat) (e : Edge) (p : Point) : Cut :=
  if p = e.target then ⟨corner + 1, 0, p⟩ else ⟨corner, distanceOn e p, p⟩

/-- Whether a cut comes before another one on its outline. -/
def before (c d : Cut) : Bool :=
  c.corner < d.corner || (c.corner == d.corner && c.distance < d.distance)

/-- The cuts in their order with another one; a cut that is not told apart from one of them is left
out. -/
def insert (c : Cut) : List Cut → List Cut
  | [] => [c]
  | d :: rest =>
    if c.before d then c :: d :: rest
    else if d.before c then d :: insert c rest
    else d :: rest

end Cut

/-- A point where an edge of one outline touches an edge of another; both edges with the number of
the corner that they start from. -/
structure Contact where
  first : Edge × Nat
  second : Edge × Nat
  point : Point

/-- All points where two outlines touch; none if they cross inside of edges. -/
def contacts? (a b : Outline) : Option (List Contact) :=
  let pairs := a.edges.zipIdx.flatMap fun e => b.edges.zipIdx.map fun f => (e, f)
  pairs.foldr
    (fun (e, f) found? => do
      let found ← found?
      match e.1.meeting f.1 with
      | .apart => pure found
      | .crossing => none
      | .touching points => pure (points.map (Contact.mk e f) ++ found))
    (some [])

end Geocast.Plane
