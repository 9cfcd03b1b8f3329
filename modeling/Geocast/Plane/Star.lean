import Geocast.Plane.Cut

/-!
# Stars

A cut leaves two ends of an edge. The ends at one point form a star, ordered by direction
counterclockwise; ends of one direction are a bundle. Directions are compared after rounding to
doubles, so ends that are very close together count as one.

`Outline.placesAround` gives every bundle its place in the region of an outline: the ends of the
outline tell it for their own bundles, and the bundles between them lie where their neighbours'
sides are.
-/
namespace Geocast.Plane

/-! ## Ends -/

/-- One of the two ends that a cut leaves, seen from the cut: its direction, and the places of the
edge. `isFirst` tells of which outline it is. -/
structure End where
  isFirst : Bool
  origin : Point
  target : Point
  sides : Sides

namespace End

/-- The rounded direction. -/
def delta (e : End) : Int × Int :=
  (Binary64.roundUnits (e.target.x - e.origin.x), Binary64.roundUnits (e.target.y - e.origin.y))

/-- The quarter of the directions, counterclockwise from the positive axis. -/
def quadrant (e : End) : Nat :=
  match decide (0 ≤ e.delta.2), decide (0 ≤ e.delta.1) with
  | true, true => 0
  | true, false => 1
  | false, false => 2
  | false, true => 3

/-- The order of ends around their common origin, counterclockwise. -/
def order (e f : End) : Ordering :=
  if e.delta = f.delta then .eq
  else if e.quadrant < f.quadrant then .lt
  else if f.quadrant < e.quadrant then .gt
  else compare (turn f.origin f.target e.target) 0

end End

/-- The end that leads back from a cut, unless the cut is the beginning. -/
def Outline.endBack? (o : Outline) (isFirst : Bool) (c : Cut) (previous? : Option Cut) :
    Option End := do
  let corner ← if c.distance = 0 then if c.corner = 0 then none else some (c.corner - 1)
    else some c.corner
  let target ←
    match previous? with
    | some p => if corner ≤ p.corner then some p.point else o.corners[corner]?
    | none => o.corners[corner]?
  pure ⟨isFirst, c.point, target, o.sides.flip⟩

/-- The end that leads on from a cut, unless the cut is the last corner. -/
def Outline.endOn? (o : Outline) (isFirst : Bool) (c : Cut) (next? : Option Cut) : Option End := do
  let corner ← o.corners[c.corner + 1]?
  let target :=
    match next? with
    | some n => if n.corner = c.corner then n.point else corner
    | none => corner
  pure ⟨isFirst, c.point, target, o.sides⟩

/-- The ends at all cuts of an outline, by a walk along the cuts. -/
def Outline.endsFrom (o : Outline) (isFirst : Bool) (previous? : Option Cut) :
    List Cut → List End
  | [] => []
  | c :: rest =>
    (o.endBack? isFirst c previous?).toList ++ (o.endOn? isFirst c rest.head?).toList ++
      o.endsFrom isFirst (some c) rest

/-- The ends at the cuts of an outline and at its first corner. -/
def Outline.ends (o : Outline) (isFirst : Bool) (cuts : List Cut) : List End :=
  match o.corners.head? with
  | none => []
  | some p =>
    let last := o.corners.length - 1
    o.endsFrom isFirst none (Cut.insert ⟨last, 0, p⟩ (Cut.insert ⟨0, 0, p⟩ cuts))

/-! ## Stars -/

/-- Ends with one direction. -/
abbrev Bundle := List End

/-- Adds an end to the bundles around a node, in their order. -/
def insertEnd (e : End) : List Bundle → List Bundle
  | [] => [[e]]
  | [] :: rest => insertEnd e rest
  | (f :: ends) :: rest =>
    match e.order f with
    | .lt => [e] :: (f :: ends) :: rest
    | .eq => (f :: ends ++ [e]) :: rest
    | .gt => (f :: ends) :: insertEnd e rest

/-- The bundles of ends with a common origin. -/
def starOf (ends : List End) : List Bundle :=
  ends.foldl (fun bundles e => insertEnd e bundles) []

namespace Bundle

/-- The place of one side of a bundle: inside if it is inside for one of the ends. -/
def sideOf (ends : List End) (side : Sides → Place) : Place :=
  if ends.any fun e => side e.sides == .inside then .inside else .outside

/-- The places of a bundle as far as the ends of one outline tell. Two coinciding edges of a region
have the region on both sides and are inside of it. -/
def sides? (isFirst : Bool) (b : Bundle) : Option Sides :=
  match b.filter (·.isFirst == isFirst) with
  | [] => none
  | ends => some ⟨if ends.length % 2 = 1 then .border else .inside, sideOf ends (·.left),
      sideOf ends (·.right)⟩

end Bundle

/-- Gives the bundles around a node that do not know their place the place that lies between their
neighbours; `current` is the place before the first bundle. -/
def spread (current : Place) : List (Option Sides) → List Sides
  | [] => []
  | some s :: rest => s :: spread s.left rest
  | none :: rest => Sides.all current :: spread current rest

/-- The places of all bundles around a node. Where no bundle is of the outline, the place of the
node counts. -/
def Outline.placesAround (o : Outline) (isFirst : Bool) (node : Point) (star : List Bundle) :
    List Sides :=
  let known := star.map (Bundle.sides? isFirst)
  match known.reverse.findSome? id with
  | some s => spread s.left known
  | none => known.map fun _ => Sides.all (o.placeOf node)

end Geocast.Plane
