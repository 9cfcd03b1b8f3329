import Geocast.Proofs.Geofence.Shortcuts
import Geocast.Proofs.Plane.Reach

/-!
# Rectangles and polygons that contain a common location

Publications are forwarded to the peers whose area intersects the geofence, and none is looked for
at home when the home area does not. Nobody is left out by that: where sides are told exactly, a
rectangle or polygon intersects every other one that contains a location it contains, however deep
inside both the location lies and however often their rings cross themselves.

* `intersects_of_contains`: geofences of the plane that contain a common location intersect.
-/
namespace Geocast.Geofence

open Plane

/-- Rectangles and polygons that contain a common location intersect, asked from either side. -/
theorem intersects_of_contains {g h : Geofence} (hg : g.shape.isPlane = true)
    (hh : h.shape.isPlane = true) {p : Location}
    (hexact : Exact (p.toPlane :: (g.shape.ring ++ h.shape.ring))) (hgp : g.contains p = true)
    (hhp : h.contains p = true) : g.intersects h = true ∧ h.intersects g = true := by
  have hrings : Exact (g.shape.ring ++ h.shape.ring) := hexact.tail
  rw [contains_eq_planeContains hg hexact.cons_left] at hgp
  rw [contains_eq_planeContains hh hexact.cons_right] at hhp
  have hjoined := Ring.joined_of_contains hexact hgp hhp
  rw [intersects_eq_rings hg hh hrings, intersects_eq_rings hh hg hrings.swap]
  exact ⟨(Ring.intersects_iff hrings).2 hjoined, (Ring.intersects_iff hrings.swap).2 hjoined.symm⟩

/-- A star with five points, which runs twice around its middle, and a strip across it that none of
its corners is in. -/
theorem intersects_of_contains_star :
    let star := ofAccepted (.polygon [⟨3.0, 10.0⟩, ⟨3.0, -10.0⟩, ⟨-8.0, 6.0⟩, ⟨10.0, 0.0⟩,
      ⟨-8.0, -6.0⟩]) (by decide +kernel)
    let strip := ofAccepted (.rectangle ⟨-1.0, -20.0⟩ ⟨1.0, 20.0⟩) (by decide +kernel)
    let p : Location := ⟨0.0, 0.0⟩
    Ring.winding star.shape.ring p.toPlane = 2 ∧ star.contains p = true ∧ strip.contains p = true ∧
      star.intersects strip = true ∧ strip.intersects star = true := by
  intro star strip p
  have hexact : Exact (p.toPlane :: (star.shape.ring ++ strip.shape.ring)) :=
    exact_of_isPlain (by decide +kernel)
  have hstar : star.contains p = true := by decide +kernel
  have hstrip : strip.contains p = true := by decide +kernel
  exact ⟨by decide +kernel, hstar, hstrip, intersects_of_contains rfl rfl hexact hstar hstrip⟩

end Geocast.Geofence
