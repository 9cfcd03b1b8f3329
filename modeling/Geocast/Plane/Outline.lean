import Geocast.Plane.Ring

/-!
# The border of a region

The outline of a ring is its border with the inside on one side. The direction of the ring tells on
which side; a ring that crosses itself or has no area gets the direction at its lower left corner.
-/
namespace Geocast.Plane

/-- Where something is, seen from the region of a ring. -/
inductive Place where
  | inside
  | border
  | outside
  deriving DecidableEq, Repr

def Ring.placeOf (r : Ring) (p : Point) : Place :=
  if r.onBorder p then .border else if r.winding p != 0 then .inside else .outside

/-- The place of an edge and of its sides. -/
structure Sides where
  on : Place
  left : Place
  right : Place
  deriving DecidableEq, Repr

namespace Sides

/-- The sides of the same edge in the other direction. -/
def flip (s : Sides) : Sides := ⟨s.on, s.right, s.left⟩

/-- An edge that lies in one place with its sides. -/
def all (p : Place) : Sides := ⟨p, p, p⟩

end Sides

/-- The border of a region: the corners, the first repeated at the end, no two neighbours equal; and
the places of its edges. -/
structure Outline where
  ring : Ring
  corners : List Point
  sides : Sides

namespace Outline

/-- The list without elements that equal the one before them. -/
def dropRepeats : List Point → List Point
  | p :: q :: rest => if p = q then dropRepeats (q :: rest) else p :: dropRepeats (q :: rest)
  | ps => ps

/-- The lower left of two points: the left one, of two above each other the lower. -/
def lowerLeft (p q : Point) : Point := if q.x < p.x || (q.x == p.x && q.y < p.y) then q else p

/-- The turn of a ring at its lower left corner; its sign is the direction of a simple ring. -/
def direction : List Point → Int
  | [] => 0
  | p :: rest =>
    let least := rest.foldl lowerLeft p
    let before := (p :: rest).takeWhile (· != least)
    let after := (p :: rest).dropWhile (· != least)
    match (after ++ before).drop 1, (after ++ before).getLast? with
    | next :: _, some last => turn last least next
    | _, _ => 0

/-- The outline of a ring. The inside is on the left of a ring that runs counterclockwise, and on
the right of any other. -/
def ofRing (r : Ring) : Outline :=
  let corners := dropRepeats (r ++ r.head?.toList)
  let ccw := 0 < direction corners.dropLast
  ⟨r, corners, ⟨.border, if ccw then .inside else .outside, if ccw then .outside else .inside⟩⟩

def edges (o : Outline) : List Edge := List.zipWith Edge.mk o.corners o.corners.tail

/-- The place that a point off the outline has. A ring with fewer than three corners has no
inside. -/
def placeOf (o : Outline) (p : Point) : Place :=
  if 3 ≤ o.corners.eraseDups.length then o.ring.placeOf p else .outside

end Outline

end Geocast.Plane
