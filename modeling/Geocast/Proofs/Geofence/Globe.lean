import Geocast.Proofs.Geofence.Shortcuts
import Geocast.Proofs.Number.Angles

/-!
# Geofences lie on the globe

The box of a circle is cut to the globe, and what is taken off the centre and added to it is never
negative; so the box is in order and the centre in it. The box of a rectangle or polygon frames its
corners, and all of them are contained. As nothing is contained that is not in the box, no geofence
contains a location that is not on the globe.

* `plus_halfWidth`: the half-width of a circle has no minus sign.
* `circleBox_spec`: the box of a circle lies on the globe and contains the centre.
* `contains_corner`: the corners of rectangles and polygons.
* `well_placed`: all of it, for every geofence.
-/
namespace Geocast
open Binary64

/-! ## The box of a circle -/

namespace Shape
open Trigonometry

/-- The radius of a circle that reaches no pole is at most a quarter turn. -/
theorem radius_le_of_not_reachesPole {center : Location} {radius : Float}
    (hlat : center.lat.isFinite = true) (hradius : radius.isFinite = true)
    (hpole : reachesPole center radius = false) : radius ≤ 90.0 := by
  have habs := isFinite_abs hlat
  have hnonneg : 0 ≤ extent center.lat.abs := zero_le_reach (plus_abs _)
  have hsum : extent radius ≤ extent (center.lat.abs + radius) := by
    calc extent radius = rounded (extent radius) := (rounded_extent hradius).symm
      _ ≤ rounded (extent center.lat.abs + extent radius) := rounded_mono (by omega)
      _ = extent (center.lat.abs + radius) := (extent_add habs hradius).symm
  rw [reachesPole, decide_eq_false_iff_not, le_iff] at hpole
  refine le_iff.2 ⟨isNaN_of_isFinite hradius, rfl, ?_⟩
  by_contra hlarge
  exact hpole ⟨by decide +kernel, isNaN_add habs hradius, by omega⟩

theorem plus_halfWidth {center : Location} {radius : Float}
    (h : (circle center radius).Accepted = true) (hpole : reachesPole center radius = false) :
    Plus (halfWidth center radius) := by
  simp only [Accepted, acceptsRadius, Bool.and_eq_true, decide_eq_true_eq] at h
  obtain ⟨hcenter, ⟨hradius, hpos⟩, -⟩ := h
  have hlat := Location.isValid_iff.1 hcenter
  have hle := radius_le_of_not_reachesPole (Location.isFinite_lat hcenter) hradius hpole
  have hge : -90.0 ≤ radius := le_trans (by decide +kernel) (le_of_lt hpos)
  have hturn : WithinQuarter (Location.toRadians radius) := ⟨toRadians_le hge, toRadians_le hle⟩
  have hplace : WithinQuarter (Location.toRadians center.lat) :=
    ⟨toRadians_le hlat.1.1, toRadians_le hlat.1.2⟩
  have hplus : Plus (Location.toRadians radius) :=
    (plus_of_pos hpos).mul (plus_of_pos (by decide +kernel))
  have harc := plus_arcsin ((plus_sin hplus hturn).div (plus_cos hplace))
  exact harc.mul (plus_of_pos (by decide +kernel))

/-- The box of a circle lies on the globe and contains the centre. -/
theorem circleBox_spec {center : Location} {radius : Float}
    (h : (circle center radius).Accepted = true) :
    (circleBox center radius).OnGlobe ∧ (circleBox center radius).contains center = true := by
  have haccepted := h
  simp only [Accepted, acceptsRadius, Bool.and_eq_true, decide_eq_true_eq] at h
  obtain ⟨hcenter, ⟨-, hpos⟩, -⟩ := h
  obtain ⟨⟨hsouth, hnorth⟩, hwest, heast⟩ := Location.isValid_iff.1 hcenter
  have hplus := plus_of_pos hpos
  have hlat := Location.isFinite_lat hcenter
  have hlon := Location.isFinite_lon hcenter
  obtain ⟨hs, hs'⟩ := max_sub_spec hlat hplus hsouth
  obtain ⟨hn, hn'⟩ := min_add_spec hlat hplus hnorth
  unfold circleBox
  dsimp only
  split
  · have hseam : (-180.0 : Float) ≤ 180.0 := by decide +kernel
    obtain ⟨hw, he, -⟩ := le_iff.1 hseam
    exact ⟨⟨hs, hn', le_self hw, le_self he, le_trans hs' hn, hseam⟩,
      BoundingBox.contains_iff.2 ⟨⟨hs', hn⟩, hwest, heast⟩⟩
  next hpole =>
    have hwidth := plus_halfWidth haccepted (Bool.eq_false_iff.2 hpole)
    obtain ⟨hw, hw'⟩ := max_sub_spec hlon hwidth hwest
    obtain ⟨he, he'⟩ := min_add_spec hlon hwidth heast
    exact ⟨⟨hs, hn', hw, he', le_trans hs' hn, le_trans hw' he⟩,
      BoundingBox.contains_iff.2 ⟨⟨hs', hn⟩, hw', he⟩⟩

end Shape

/-! ## Every geofence -/

namespace Geofence

theorem box_of_circle {g : Geofence} {center : Location} {radius : Float}
    (h : g.shape = .circle center radius) :
    g.box.OnGlobe ∧ g.box.contains center = true := by
  have haccepted := g.accepted
  rw [h] at haccepted
  rw [g.box_eq, h]
  exact Shape.circleBox_spec haccepted

theorem onGlobe (g : Geofence) : g.box.OnGlobe := by
  cases hshape : g.shape with
  | circle center radius => exact (box_of_circle hshape).1
  | rectangle sw ne => exact onGlobe_box (by rw [hshape]; rfl)
  | polygon points => exact onGlobe_box (by rw [hshape]; rfl)

theorem box_contains_of_contains {g : Geofence} {p : Location} (h : g.contains p = true) :
    g.box.contains p = true := by
  rw [contains, Bool.and_eq_true] at h
  exact h.1

/-- A rectangle or polygon contains its corners, whether or not their sides are told exactly. -/
theorem contains_corner {g : Geofence} (h : g.shape.isPlane = true) {p : Location}
    (hp : p ∈ g.shape.corners) : g.contains p = true := by
  have hbox := (frames_box h).contains p hp
  cases hshape : g.shape with
  | circle center radius =>
    rw [hshape] at h
    cases h
  | rectangle sw ne => rw [contains_of_rectangle hshape, hbox]
  | polygon points =>
    rw [contains_of_polygon hshape, hbox, Bool.true_and]
    refine Plane.Ring.contains_corner (fun v hv => ?_) (List.mem_map_of_mem hp)
    obtain ⟨q, hq, rfl⟩ := List.mem_map.1 hv
    exact Location.onMap_toPlane (Shape.isValid_corner g.accepted q hq)

/-- The box of every geofence lies on the globe. It contains the centre of a circle; it contains the
corners of a rectangle or polygon and has one on every side, and they are contained in the geofence.
However it was made, no geofence contains a location that is not on the globe. -/
theorem well_placed (g : Geofence) :
    g.box.OnGlobe ∧
    (∀ center radius, g.shape = .circle center radius → g.box.contains center = true) ∧
    (g.shape.isPlane = true →
      g.box.Frames g.shape.corners ∧ ∀ p ∈ g.shape.corners, g.contains p = true) ∧
    ∀ p, g.contains p = true → p.isValid = true := by
  refine ⟨onGlobe g, fun center radius hshape => ?_, fun hplane => ?_, fun p hp => ?_⟩
  · exact (box_of_circle hshape).2
  · exact ⟨frames_box hplane, fun p hp => contains_corner hplane hp⟩
  · exact (onGlobe g).isValid (box_contains_of_contains hp)

/-- A circle over the north pole and a triangle. -/
theorem well_placed_cap_and_triangle :
    let cap := ofAccepted (.circle ⟨85.0, 20.0⟩ 10.0) (by decide +kernel)
    let triangle := ofAccepted (.polygon [⟨0.0, 0.0⟩, ⟨0.0, 10.0⟩, ⟨10.0, 0.0⟩]) (by decide +kernel)
    cap.box.OnGlobe ∧ cap.box.contains ⟨85.0, 20.0⟩ = true ∧
      triangle.box.Frames triangle.shape.corners ∧ triangle.contains ⟨0.0, 10.0⟩ = true ∧
      (⟨1.0, 5.0⟩ : Location).isValid = true := by
  intro cap triangle
  obtain ⟨hglobe, hcenter, -⟩ := well_placed cap
  obtain ⟨-, -, hplane, hvalid⟩ := well_placed triangle
  obtain ⟨hframes, hcorners⟩ := hplane rfl
  exact ⟨hglobe, hcenter _ _ rfl, hframes, hcorners _ (List.mem_cons_of_mem _ List.mem_cons_self),
    hvalid _ (by decide +kernel)⟩

end Geofence

end Geocast
