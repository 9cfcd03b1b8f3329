import Geocast.Plane.Star

/-!
# Two rings laid over each other

The outlines of two rings cut the plane into faces, edges and nodes. `Overlay.places` lists the
places in the two regions that nodes, edges and sides of edges have, so that relations of the
regions can be read off.
-/
namespace Geocast.Plane

/-- The places of one thing in two regions. -/
abbrev Places := Place × Place

/-- The places of an edge and of its sides. -/
def Sides.places (s t : Sides) : List Places := [(s.on, t.on), (s.left, t.left), (s.right, t.right)]

/-- The place of a node: the first corner is on the border, a cut is on it or, where the outline
passes an even number of times, inside. -/
def Outline.placeOfNode (o : Outline) (cuts : List Cut) (node : Point) : Place :=
  let times := (cuts.filter (·.point == node)).length
  if o.corners.head? == some node then .border
  else if times = 0 then o.ring.placeOf node
  else if times % 2 = 1 then .border
  else .inside

/-- Two outlines and where they are cut. -/
structure Overlay where
  first : Outline
  second : Outline
  firstCuts : List Cut
  secondCuts : List Cut

namespace Overlay

/-- The overlay of two rings; none if edges cross. -/
def ofRings? (r s : Ring) : Option Overlay := do
  let a := Outline.ofRing r
  let b := Outline.ofRing s
  let contacts ← contacts? a b
  pure ⟨a, b,
    contacts.foldl (fun cuts c => (Cut.ofPoint c.first.2 c.first.1 c.point).insert cuts) [],
    contacts.foldl (fun cuts c => (Cut.ofPoint c.second.2 c.second.1 c.point).insert cuts) []⟩

/-- The nodes: all cuts and the first corners. -/
def nodes (v : Overlay) : List Point :=
  ((v.firstCuts ++ v.secondCuts).map (·.point) ++ v.first.corners.head?.toList ++
    v.second.corners.head?.toList).eraseDups

def ends (v : Overlay) : List End :=
  v.first.ends true v.firstCuts ++ v.second.ends false v.secondCuts

/-- The places of a node and of the ends around it. -/
def placesAt (v : Overlay) (ends : List End) (node : Point) : List Places :=
  let star := starOf (ends.filter (·.origin == node))
  (v.first.placeOfNode v.firstCuts node, v.second.placeOfNode v.secondCuts node) ::
    (List.zipWith Sides.places (v.first.placesAround true node star)
      (v.second.placesAround false node star)).flatten

/-- The places of outlines that do not touch: each lies in one place of the other region. -/
def placesApart (v : Overlay) : List Places :=
  if v.firstCuts.isEmpty && v.secondCuts.isEmpty then
    (v.first.corners.head?.toList.flatMap fun p =>
        v.first.sides.places (Sides.all (v.second.placeOf p))) ++
      v.second.corners.head?.toList.flatMap fun p =>
        (Sides.all (v.first.placeOf p)).places v.second.sides
  else []

/-- The places that nodes, edges and sides of edges have in the two regions. -/
def places (v : Overlay) : List Places := v.nodes.flatMap (v.placesAt v.ends) ++ v.placesApart

end Overlay

end Geocast.Plane
