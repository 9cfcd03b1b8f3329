import Geocast.Proofs.Geofence.Closest
import Geocast.Proofs.Number.Mirror

/-!
# Distances and intersections from either side

The haversine formula treats the two locations alike but for the order of its operands and the signs
of its differences, and squares take those away again. So distances are the same double in both
directions. Of two geofences, which one is asked decides which test is made and in which order; the
answer does not depend on it.

* `Location.distance_comm`, `Location.distanceKm_comm`: distances.
* `BoundingBox.intersects_comm`, `Plane.Ring.intersects_comm`, `Shape.meets_comm`: the tests.
* `Geofence.intersects_symmetric`: all of it.
-/
namespace Geocast
open Binary64

/-! ## Distances -/

namespace Location

theorem haversine_neg (x : Float) : haversine (-x) = haversine x := by
  simp only [haversine, Binary64.neg_div, Trigonometry.sin_neg, neg_mul_neg_self]

theorem haversine_sub_comm (x y : Float) :
    haversine (toRadians (x - y)) = haversine (toRadians (y - x)) := by
  calc haversine (toRadians (x - y))
      = haversine (toRadians (-(y - x))) := haversine_congr (alike_toRadians (alike_sub_swap y x))
    _ = haversine (-toRadians (y - x)) := by rw [toRadians, Binary64.neg_mul, ← toRadians]
    _ = haversine (toRadians (y - x)) := haversine_neg _

theorem halfChordSquare_comm (p q : Location) :
    p.viewpoint.halfChordSquare q = q.viewpoint.halfChordSquare p := by
  simp only [Viewpoint.halfChordSquare, viewpoint]
  rw [haversine_sub_comm q.lat, haversine_sub_comm q.lon,
    Binary64.mul_comm (Trigonometry.cos (toRadians p.lat))]

theorem centralAngle_comm (p q : Location) :
    p.viewpoint.centralAngle q = q.viewpoint.centralAngle p := by
  rw [Viewpoint.centralAngle, Viewpoint.centralAngle, halfChordSquare_comm]

theorem distance_comm (p q : Location) : p.distance q = q.distance p :=
  congrArg toDegrees (centralAngle_comm p q)

theorem distanceKm_comm (p q : Location) : p.distanceKm q = q.distanceKm p :=
  congrArg (earthRadius * ·) (centralAngle_comm p q)

end Location

/-! ## Tests of boxes, rings and shapes -/

theorem BoundingBox.intersects_comm (a b : BoundingBox) : a.intersects b = b.intersects a := by
  simp only [intersects, Bool.and_assoc, Bool.and_left_comm, Bool.and_comm]

namespace Plane

theorem Box.meets_comm (b c : Box) : b.meets c = c.meets b := by
  rw [Bool.eq_iff_iff, meets_iff, meets_iff]
  tauto

namespace Ring

theorem any_near_comm (r s : Ring) : s.box?.any r.near = r.box?.any s.near := by
  unfold near
  cases r.box? with
  | none => cases s.box? <;> rfl
  | some b =>
    cases s.box? with
    | none => rfl
    | some c => exact Box.meets_comm c b

theorem intersects_comm (r s : Ring) : r.intersects s = s.intersects r := by
  rw [intersects, intersects, any_near_comm, Bool.or_comm]

end Ring

end Plane

namespace Shape

/-- Two shapes meet from either side: circles by the distance of their centres and the sum of their
radii, a circle and a shape of the plane by one distance, shapes of the plane by their rings. -/
theorem meets_comm (s t : Shape) : s.meets t = t.meets s := by
  rcases isPlane_or_circle s with hs | ⟨c, r, rfl⟩ <;>
    rcases isPlane_or_circle t with ht | ⟨d, r', rfl⟩
  · rw [meets_of_isPlane hs ht, meets_of_isPlane ht hs, Plane.Ring.intersects_comm]
  · obtain ⟨hmeets, hmeets'⟩ := meets_circle hs d r'
    exact hmeets'.trans hmeets.symm
  · obtain ⟨hmeets, hmeets'⟩ := meets_circle ht c r
    exact hmeets.trans hmeets'.symm
  · simp only [meets, Location.distance_comm c d, Binary64.add_comm r r']

end Shape

namespace Geofence

/-- Two geofences intersect whichever of them is asked, whatever their shapes are, and the distance
of two locations is the same double in both directions, in degrees and in kilometres. -/
theorem intersects_symmetric :
    (∀ g h : Geofence, g.intersects h = h.intersects g) ∧
      ∀ p q : Location, p.distance q = q.distance p ∧ p.distanceKm q = q.distanceKm p := by
  refine ⟨fun g h => ?_, fun p q => ⟨Location.distance_comm p q, Location.distanceKm_comm p q⟩⟩
  rw [intersects, intersects, BoundingBox.intersects_comm, Shape.meets_comm]

end Geofence

end Geocast
