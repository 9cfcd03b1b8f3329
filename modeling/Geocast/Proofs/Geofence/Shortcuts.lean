import Geocast.Proofs.Geofence.Description
import Geocast.Proofs.Geofence.Frame

/-!
# The tests in the plane and their shortcuts

Rectangles and polygons test the box before the plane, and a rectangle tests nothing but its box. No
answer depends on that: what is in the region of a ring lies between its corners, and rings with a
place in common overlap. This holds wherever sides are told exactly.

* `contains_eq_planeContains`: a geofence contains what the region of its ring contains.
* `polygon_of_rectangle`: the corners of a rectangle are those of a polygon.
* `intersects_eq_rings`: geofences intersect when their rings do.
* `plane_tests_agree`: all of it, down to edges and winding numbers.
-/
namespace Geocast

open Plane

namespace Shape

theorem meets_of_isPlane {s t : Shape} (hs : s.isPlane = true) (ht : t.isPlane = true) :
    s.meets t = Ring.intersects s.ring t.ring := by
  cases s with
  | circle center radius => cases hs
  | rectangle sw ne =>
    cases t with
    | circle center radius => cases ht
    | rectangle sw' ne' => rfl
    | polygon points => rfl
  | polygon points =>
    cases t with
    | circle center radius => cases ht
    | rectangle sw ne => rfl
    | polygon points' => rfl

end Shape

namespace Geofence

/-! ## Boxes and rings -/

theorem frames_box {g : Geofence} (h : g.shape.isPlane = true) : g.box.Frames g.shape.corners := by
  rw [g.box_eq]
  exact Shape.frames_corners g.accepted h

theorem onGlobe_box {g : Geofence} (h : g.shape.isPlane = true) : g.box.OnGlobe :=
  (frames_box h).onGlobe (Shape.isValid_corner g.accepted)

theorem box_contains_ring {g : Geofence} (h : g.shape.isPlane = true) :
    ∀ v ∈ g.shape.ring, g.box.toPlane.contains v = true := by
  intro v hv
  obtain ⟨p, hp, rfl⟩ := List.mem_map.1 hv
  rw [BoundingBox.contains_toPlane (onGlobe_box h)]
  exact (frames_box h).contains p hp

theorem box_contains_of_planeContains {g : Geofence} (h : g.shape.isPlane = true) {p : Location}
    (hexact : Exact (p.toPlane :: g.shape.ring)) (hp : g.shape.planeContains p = true) :
    g.box.contains p = true := by
  rw [← BoundingBox.contains_toPlane (onGlobe_box h)]
  exact (Ring.spans_of_contains hexact hp).box_contains (box_contains_ring h)

theorem ring_of_rectangle {g : Geofence} {sw ne : Location} (h : g.shape = .rectangle sw ne) :
    g.shape.ring = g.box.toPlane.ring := by
  rw [g.box_eq, h]
  rfl

/-! ## Locations -/

theorem contains_of_rectangle {g : Geofence} {sw ne : Location} (h : g.shape = .rectangle sw ne)
    (p : Location) : g.contains p = g.box.contains p := by
  rw [contains, h]
  exact Bool.and_true _

theorem contains_of_polygon {g : Geofence} {points : List Location} (h : g.shape = .polygon points)
    (p : Location) : g.contains p = (g.box.contains p && g.shape.planeContains p) := by
  rw [contains, h]

theorem contains_eq_planeContains {g : Geofence} (h : g.shape.isPlane = true) {p : Location}
    (hexact : Exact (p.toPlane :: g.shape.ring)) : g.contains p = g.shape.planeContains p := by
  cases hshape : g.shape with
  | circle center radius =>
    rw [hshape] at h
    cases h
  | rectangle sw ne =>
    have hglobe := onGlobe_box h
    have hring := ring_of_rectangle hshape
    rw [hring] at hexact
    rw [contains_of_rectangle hshape, ← hshape, Shape.planeContains, hring,
      Ring.contains_ring hglobe.ordered.1 hglobe.ordered.2 hexact,
      BoundingBox.contains_toPlane hglobe]
  | polygon points =>
    rw [contains_of_polygon hshape, ← hshape, Bool.and_eq_right_iff_imp]
    exact box_contains_of_planeContains h hexact

/-! ## Rectangles as polygons -/

/-- The corners of a rectangle with an inside are those of a polygon. -/
theorem polygon_of_rectangle {g : Geofence} {sw ne : Location} (h : g.shape = .rectangle sw ne)
    (hlat : sw.lat < ne.lat) (hlon : sw.lon < ne.lon) :
    ∃ q, polygon g.shape.corners = .ok q ∧ q.shape = .polygon g.shape.corners := by
  have hdiffer : ∀ {x y : Float}, x < y → (x == y) = false ∧ (y == x) = false := by
    intro x y hlt
    have hextent := (Binary64.lt_iff.1 hlt).2.2
    rw [Bool.eq_false_iff, Bool.eq_false_iff, Ne, Ne, Binary64.beq_iff, Binary64.beq_iff]
    exact ⟨fun heq => hextent.ne heq.2.2, fun heq => hextent.ne' heq.2.2⟩
  obtain ⟨hsouth, hnorth⟩ := hdiffer hlat
  obtain ⟨hwest, heast⟩ := hdiffer hlon
  -- Each corner has a coordinate that the next one has not.
  have hsides : (sw == ⟨sw.lat, ne.lon⟩) = false ∧ (Location.mk sw.lat ne.lon == ne) = false ∧
      (ne == ⟨ne.lat, sw.lon⟩) = false ∧ (sw == ⟨ne.lat, sw.lon⟩) = false := by
    refine ⟨?_, ?_, ?_, ?_⟩ <;> change (_ && _) = false
    · rw [hwest, Bool.and_false]
    · rw [hsouth, Bool.false_and]
    · rw [heast, Bool.and_false]
    · rw [hsouth, Bool.false_and]
  have hcorners : g.shape.corners = [sw, ⟨sw.lat, ne.lon⟩, ne, ⟨ne.lat, sw.lon⟩] := by rw [h]; rfl
  have haccepted : (Shape.polygon g.shape.corners).Accepted = true := by
    have hruns : Shape.countRuns g.shape.corners = 4 := by
      rw [hcorners]
      simp [Shape.countRuns, hsides]
    rw [Shape.Accepted, hruns, List.all_eq_true.2 (Shape.isValid_corner g.accepted)]
    rfl
  have hopen : (Shape.polygon g.shape.corners).isClosed = false := by
    rw [hcorners]
    change (true && (sw == ⟨ne.lat, sw.lon⟩)) = false
    rw [hsides.2.2.2, Bool.and_false]
  exact ⟨ofAccepted _ haccepted, ofShape_of_open (g := ofAccepted _ haccepted) hopen, rfl⟩

/-! ## Two geofences -/

theorem intersects_eq_rings {g h : Geofence} (hg : g.shape.isPlane = true)
    (hh : h.shape.isPlane = true) (hexact : Exact (g.shape.ring ++ h.shape.ring)) :
    g.intersects h = Ring.intersects g.shape.ring h.shape.ring := by
  rw [intersects, Shape.meets_of_isPlane hg hh]
  cases hrings : Ring.intersects g.shape.ring h.shape.ring with
  | false => rw [Bool.and_false]
  | true =>
    have hoverlaps := Ring.overlaps_of_joined hexact ((Ring.intersects_iff hexact).1 hrings)
    rw [← BoundingBox.meets_toPlane (onGlobe_box hg) (onGlobe_box hh),
      hoverlaps.box_meets (box_contains_ring hg) (box_contains_ring hh), Bool.and_true]

/-! ## All shortcuts -/

/-- Wherever sides are told exactly, the answers of rectangles and polygons are those of the plane:
a location is contained on an edge of the ring and where the ring runs around it, a rectangle with
an inside answers as the polygon of its corners, and two geofences intersect when edges of their
rings meet or one contains a corner of the other. -/
theorem plane_tests_agree :
    (∀ (g : Geofence) (p : Location), g.shape.isPlane = true →
      Exact (p.toPlane :: g.shape.ring) →
        g.contains p = g.shape.planeContains p ∧
        (g.contains p = true ↔ (∃ e ∈ Ring.edges g.shape.ring, e.Passes p.toPlane) ∨
          Ring.winding g.shape.ring p.toPlane ≠ 0)) ∧
    (∀ (g : Geofence) (sw ne : Location), g.shape = .rectangle sw ne → sw.lat < ne.lat →
      sw.lon < ne.lon → ∃ q, polygon g.shape.corners = .ok q ∧
        ∀ p : Location, Exact (p.toPlane :: g.shape.ring) → g.contains p = q.contains p) ∧
    (∀ g h : Geofence, g.shape.isPlane = true → h.shape.isPlane = true →
      Exact (g.shape.ring ++ h.shape.ring) →
        g.intersects h = Ring.intersects g.shape.ring h.shape.ring ∧
        (g.intersects h = true ↔ g.shape.ring.Joined h.shape.ring)) := by
  refine ⟨fun g p hplane hexact => ?_, fun g sw ne hshape hlat hlon => ?_,
    fun g h hg hh hexact => ?_⟩
  · have heq := contains_eq_planeContains hplane hexact
    refine ⟨heq, ?_⟩
    rw [heq, Shape.planeContains, Ring.contains_iff hexact]
  · obtain ⟨q, hq, hcorners⟩ := polygon_of_rectangle hshape hlat hlon
    refine ⟨q, hq, fun p hexact => ?_⟩
    have hring : q.shape.ring = g.shape.ring := by rw [hcorners]; rfl
    rw [contains_eq_planeContains (by rw [hshape]; rfl) hexact,
      contains_eq_planeContains (by rw [hcorners]; rfl) (by rw [hring]; exact hexact),
      Shape.planeContains, Shape.planeContains, hring]
  · have heq := intersects_eq_rings hg hh hexact
    refine ⟨heq, ?_⟩
    rw [heq, Ring.intersects_iff hexact]

/-- A square, a triangle across one of its corners and a location in both. -/
theorem plane_tests_agree_square :
    let square := ofAccepted (.rectangle ⟨0.0, 0.0⟩ ⟨20.0, 20.0⟩) (by decide +kernel)
    let triangle := ofAccepted (.polygon [⟨10.0, 10.0⟩, ⟨10.0, 30.0⟩, ⟨30.0, 10.0⟩])
      (by decide +kernel)
    let p : Location := ⟨12.0, 14.0⟩
    square.contains p = true ∧ square.contains p = square.shape.planeContains p ∧
      triangle.contains p = true ∧ triangle.contains p = triangle.shape.planeContains p ∧
      (∃ q, polygon square.shape.corners = .ok q ∧ square.contains p = q.contains p) ∧
      square.intersects triangle = true ∧ square.shape.ring.Joined triangle.shape.ring := by
  intro square triangle p
  have hsquare : Exact (p.toPlane :: square.shape.ring) := exact_of_isPlain (by decide +kernel)
  have htriangle : Exact (p.toPlane :: triangle.shape.ring) :=
    exact_of_isPlain (by decide +kernel)
  have hboth : Exact (square.shape.ring ++ triangle.shape.ring) :=
    exact_of_isPlain (by decide +kernel)
  obtain ⟨hlocations, hrectangles, hpairs⟩ := plane_tests_agree
  obtain ⟨q, hq, hagree⟩ := hrectangles square ⟨0.0, 0.0⟩ ⟨20.0, 20.0⟩ rfl (by decide +kernel)
    (by decide +kernel)
  have hmeet : square.intersects triangle = true := by decide +kernel
  exact ⟨by decide +kernel, (hlocations square p rfl hsquare).1, by decide +kernel,
    (hlocations triangle p rfl htriangle).1, ⟨q, hq, hagree p hsquare⟩, hmeet,
    (hpairs square triangle rfl rfl hboth).2.1 hmeet⟩

end Geofence

end Geocast
