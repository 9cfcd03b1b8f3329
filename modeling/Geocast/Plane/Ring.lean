import Geocast.Plane.Turn

/-!
# Rings of the plane

A ring is the list of its corners, the last joined to the first; it may cross itself. Everything is
decided by the sign of `turn` and by comparing coordinates.

* `Ring.winding`: how often the ring runs around a point.
* `Ring.contains`: the point is on the ring, or the ring runs around it.
* `Ring.intersects`: an edge of one ring touches an edge of the other or has an end in it.
-/
namespace Geocast.Plane

namespace Edge

/-- On which side of the line of the edge a point lies: one for left, minus one for right, zero for
the line itself. -/
def side (e : Edge) (p : Point) : Int := (turn e.source e.target p).sign

/-- Whether a point lies on the edge, ends included. -/
def contains (e : Edge) (p : Point) : Bool := e.box.contains p && e.side p == 0

/-- Whether a point is on the border at an edge of a ring. The upper end of an edge that runs
downwards is left to the edge before it. -/
def borders (e : Edge) (p : Point) : Bool :=
  !(e.source.y = p.y && e.target.y < p.y) && e.contains p

/-- Whether the ends of an edge have no tiny coordinates. -/
def isPlain (e : Edge) : Bool := e.source.isPlain && e.target.isPlain

/-- Whether two edges have a point in common. Edges whose ends are on different sides of each other
cross or touch; edges on one line touch when an end of one lies between the ends of the other. Where
sides are exact, edges in boxes that are apart need no further look. -/
def touches (e f : Edge) : Bool :=
  if !e.box.meets f.box && e.isPlain && f.isPlain then false
  else if e.source = e.target then f.contains e.source
  else if e.side f.source ≠ e.side f.target then f.side e.source != f.side e.target
  else
    e.side f.source == 0 &&
      (e.box.contains f.source || e.box.contains f.target || f.box.contains e.target)

/-- What the edge adds to the winding number around `p`: one when it passes upwards on the right,
minus one when it passes downwards on the right. The lower end counts, the upper does not. -/
def crossing (e : Edge) (p : Point) : Int :=
  if e.source.y ≤ p.y then
    if p.y < e.target.y && 0 < turn e.source e.target p then 1 else 0
  else if e.target.y ≤ p.y && turn e.source e.target p < 0 then -1
  else 0

end Edge

/-- The corners of a closed line in order, the last joined to the first. -/
abbrev Ring := List Point

namespace Ring

def edges : Ring → List Edge
  | [] => []
  | p :: rest => List.zipWith Edge.mk (p :: rest) (rest ++ [p])

/-- The least box around a ring. -/
def box? : Ring → Option Box
  | [] => none
  | p :: rest => some (rest.foldl Box.insert (.span p p))

/-- Whether the box of a ring meets another box. -/
def near (r : Ring) (b : Box) : Bool := r.box?.any b.meets

/-! ## Points -/

def onBorder (r : Ring) (p : Point) : Bool := (edges r).any (·.borders p)

/-- How often the ring runs around a point, counterclockwise positive. -/
def winding (r : Ring) (p : Point) : Int := (edges r).foldr (fun e n => e.crossing p + n) 0

/-- Whether a point is in the closed region of the ring. -/
def contains (r : Ring) (p : Point) : Bool := onBorder r p || winding r p != 0

/-! ## Rings -/

/-- Whether the region of a ring reaches an edge: an edge of the ring touches it, or an end of it is
in the region. -/
def reaches (r : Ring) (f : Edge) : Bool :=
  (r.near f.box && (edges r).any (·.touches f)) || contains r f.source || contains r f.target

/-- Whether the closed regions of two rings meet. -/
def intersects (r s : Ring) : Bool :=
  s.box?.any r.near && ((edges s).any (reaches r) || (edges r).any (reaches s))

end Ring

end Geocast.Plane
