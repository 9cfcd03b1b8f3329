import Geocast.Geofence.Basic
import Geocast.Plane.Cover

/-!
# Geofences and locations, geofences and geofences

* `contains`: a location lies in a geofence or on its border.
* `intersects`: two geofences have a place in common.
* `covers`: the second geofence lies in the first.

Rectangles and polygons are compared in the plane, exactly. What involves a circle is decided by
great-circle distances: of centres between two circles, and of the centre to the edges of the other
shape. An edge is straight in longitude and latitude, so its closest and farthest points have no
formula; `Segment.closest` samples it and refines the best sample by golden-section search.
-/
namespace Geocast

/-! ## Closest and farthest points of an edge -/

/-- Golden-section search for a least value of `cost` between `lo` and `hi`. The two inner points
and their costs are carried along; each round drops one end. -/
def goldenSection (cost : Float → Float) :
    Nat → (lo hi x₁ x₂ cost₁ cost₂ : Float) → Float
  | 0, _, _, _, _, cost₁, cost₂ => Binary64.min cost₁ cost₂
  | rounds + 1, lo, hi, x₁, x₂, cost₁, cost₂ =>
    let ratio : Float := 0.618033988749895
    if cost₁ ≤ cost₂ then
      let x := x₂ - ratio * (x₂ - lo)
      goldenSection cost rounds lo x₂ x x₁ (cost x) cost₁
    else
      let x := x₁ + ratio * (hi - x₁)
      goldenSection cost rounds x₁ hi x₂ x cost₂ (cost x)

/-- The least cost that golden-section search finds between `lo` and `hi` in forty-eight rounds. -/
def refine (cost : Float → Float) (lo hi : Float) : Float :=
  let ratio : Float := 0.618033988749895
  let x₁ := hi - ratio * (hi - lo)
  let x₂ := lo + ratio * (hi - lo)
  goldenSection cost 48 lo hi x₁ x₂ (cost x₁) (cost x₂)

/-- A sample number and the cost found there. -/
structure Sample where
  index : Nat
  cost : Float

/-- The better of two samples; the earlier unless the later costs less. -/
def Sample.better (s t : Sample) : Sample := if t.cost < s.cost then t else s

/-- The quotient of two sample numbers. -/
def sampleAt (i steps : Nat) : Float := Float.ofNat i / Float.ofNat steps

/-- The best of the samples at `0 / steps`, …, `steps / steps`, the first of equals. -/
def bestSample (cost : Float → Float) (steps : Nat) : Sample :=
  (List.range (steps + 1)).foldl (fun best i => best.better ⟨i, cost (sampleAt i steps)⟩)
    ⟨0, Binary64.infinity⟩

/-- The least value of a cost on the interval from zero to one: the best of `steps + 1` samples,
refined between its neighbours. -/
def minimize (cost : Float → Float) (steps : Nat) : Float :=
  let best := bestSample cost steps
  Binary64.min
    (refine cost (sampleAt (best.index - 1) steps) (sampleAt (min (best.index + 1) steps) steps))
    best.cost

/-- An edge that is straight in longitude and latitude. -/
structure Segment where
  source : Location
  target : Location

namespace Segment

/-- The location at a fraction of the edge. -/
def point (s : Segment) (t : Float) : Location :=
  ⟨s.source.lat + (s.target.lat - s.source.lat) * t,
    s.source.lon + (s.target.lon - s.source.lon) * t⟩

/-- The number of samples on an edge: one every quarter of a degree, and at least one. -/
def steps (s : Segment) : Nat :=
  let span := Binary64.max (s.target.lon - s.source.lon).abs (s.target.lat - s.source.lat).abs
  max 1 (-(Binary64.floor (-(span / 0.25)))).toNat

/-- The distance in degrees from a location to the closest point of the edge. -/
def closest (s : Segment) (p : Location) : Float :=
  let v := p.viewpoint
  minimize (fun t => v.distance (s.point t)) s.steps

/-- The distance in degrees from a location to the farthest point of the edge. -/
def farthest (s : Segment) (p : Location) : Float :=
  let v := p.viewpoint;
  -minimize (fun t => -v.distance (s.point t)) s.steps

/-- Whether the edge runs along a pole or the antimeridian, where it borders nothing. -/
def isSeam (s : Segment) : Bool :=
  (s.source.lat == s.target.lat && s.source.lat.abs == 90.0) ||
    (s.source.lon == s.target.lon && s.source.lon.abs == 180.0)

end Segment

/-! ## Regions -/

namespace Shape

/-- The corners, the first repeated at the end unless it stands there already. -/
def closedCorners (s : Shape) : List Location :=
  match s.corners with
  | [] => []
  | p :: rest => if (p :: rest).head? == (p :: rest).getLast? then p :: rest else p :: rest ++ [p]

def segments (s : Shape) : List Segment :=
  List.zipWith Segment.mk s.closedCorners s.closedCorners.tail

/-- Whether the plane region of a rectangle or polygon contains a location. -/
def planeContains (s : Shape) (p : Location) : Bool := Plane.Ring.contains s.ring p.toPlane

/-- The distance in degrees from a location to a rectangle or polygon, zero inside. Outside, the
closest point lies on an edge. -/
def distanceFrom (s : Shape) (p : Location) : Float :=
  if s.planeContains p then 0.0
  else (s.segments.map (·.closest p)).foldl Binary64.min Binary64.infinity

/-- Whether two described regions meet, boxes aside. -/
def meets : Shape → Shape → Bool
  | circle c r, circle d s => c.distance d ≤ r + s
  | circle c r, other => other.distanceFrom c ≤ r
  | other, circle c r => other.distanceFrom c ≤ r
  | a, b => Plane.Ring.intersects a.ring b.ring

end Shape

namespace Geofence

/-- Whether a location lies in a geofence or on its border. -/
def contains (g : Geofence) (p : Location) : Bool :=
  g.box.contains p &&
    match g.shape with
    | .circle center radius => center.distance p ≤ radius
    | .rectangle _ _ => true
    | .polygon points => (Shape.polygon points).planeContains p

def intersects (g h : Geofence) : Bool := g.box.intersects h.box && g.shape.meets h.shape

def disjoint (g h : Geofence) : Bool := !g.intersects h

/-- Whether the second geofence lies in the first. A shape lies in a circle when its farthest edge
point is close enough to the centre; a circle lies in a shape when its centre does and no edge that
borders something is closer than the radius. -/
def covers (g h : Geofence) : Bool :=
  match g.shape, h.shape with
  | .circle c r, .circle d s => c.distance d + s ≤ r
  | .circle c r, other => g.box.covers h.box && other.segments.all fun e => e.farthest c ≤ r
  | other, .circle c r =>
    other.planeContains c && (other.segments.filter (!·.isSeam)).all fun e => r ≤ e.closest c
  | a, b => Plane.Ring.covers a.ring b.ring

end Geofence

end Geocast
