import Geocast.Geofence.Relations
import Geocast.Proofs.Number.Sum
import Geocast.Proofs.Plane.Overlap

/-!
# Boxes around the corners of geofences

The box of a rectangle or polygon contains its corners, and each side of it has one. Such a box lies
on the globe because the corners do. What the box says about locations and about other boxes is what
it says in the plane, where it is a box around the ring.

* `isValid_iff`: a location is on the globe when its coordinates are in range.
* `BoundingBox.Frames`: a box that contains some locations and has one on every side.
* `BoundingBox.OnGlobe`: a box that lies on the globe, `min` below `max`.
* `Picks.foldl_coordinate`: the least and the greatest coordinate of some locations.
* `frames_corners`: the box of a rectangle or polygon frames its corners.
* `contains_toPlane`, `meets_toPlane`: boxes of the globe and of the plane.
-/
namespace Geocast
open Binary64

/-! ## Locations on the globe -/

theorem Location.isValid_iff {p : Location} :
    p.isValid = true ↔ (-90.0 ≤ p.lat ∧ p.lat ≤ 90.0) ∧ -180.0 ≤ p.lon ∧ p.lon ≤ 180.0 := by
  unfold isValid
  simp only [Bool.and_eq_true, decide_eq_true_eq, and_assoc]
  refine ⟨fun h => h.2.2, fun h => ⟨?_, ?_, h⟩⟩
  · exact isFinite_of_between rfl rfl h.1 h.2.1
  · exact isFinite_of_between rfl rfl h.2.2.1 h.2.2.2

namespace Location

theorem isFinite_lat {p : Location} (h : p.isValid = true) : p.lat.isFinite = true := by
  simp only [isValid, Bool.and_eq_true] at h
  exact h.1.1.1

theorem isFinite_lon {p : Location} (h : p.isValid = true) : p.lon.isFinite = true := by
  simp only [isValid, Bool.and_eq_true] at h
  exact h.1.1.2

theorem onMap_toPlane {p : Location} (h : p.isValid = true) : p.toPlane.OnMap := by
  obtain ⟨⟨hs, hn⟩, hw, he⟩ := isValid_iff.1 h
  have hpole : (extent 90.0).toNat ≤ Plane.halfTurn := by decide +kernel
  have hpole' : (-extent (-90.0)).toNat ≤ Plane.halfTurn := by decide +kernel
  have hseam : (extent 180.0).toNat ≤ Plane.halfTurn := by decide +kernel
  have hseam' : (-extent (-180.0)).toNat ≤ Plane.halfTurn := by decide +kernel
  rw [le_iff] at hs hn hw he
  constructor
  · change (units p.lon).natAbs ≤ _
    rw [← extent_eq_units (isFinite_lon h)]
    omega
  · change (units p.lat).natAbs ≤ _
    rw [← extent_eq_units (isFinite_lat h)]
    omega

end Location

/-! ## Boxes on the globe -/

namespace BoundingBox

/-- A box lies on the globe, and its sides are in order. -/
structure OnGlobe (b : BoundingBox) : Prop where
  south : -90.0 ≤ b.minLat
  north : b.maxLat ≤ 90.0
  west : -180.0 ≤ b.minLon
  east : b.maxLon ≤ 180.0
  lat : b.minLat ≤ b.maxLat
  lon : b.minLon ≤ b.maxLon

/-- A box contains some locations, and each of its sides goes through one of them. -/
structure Frames (b : BoundingBox) (points : List Location) : Prop where
  contains : ∀ p ∈ points, b.contains p = true
  south : ∃ p ∈ points, (p.lat == b.minLat) = true
  north : ∃ p ∈ points, (p.lat == b.maxLat) = true
  west : ∃ p ∈ points, (p.lon == b.minLon) = true
  east : ∃ p ∈ points, (p.lon == b.maxLon) = true

theorem Frames.onGlobe {b : BoundingBox} {points : List Location} (h : b.Frames points)
    (hvalid : ∀ p ∈ points, p.isValid = true) : b.OnGlobe := by
  obtain ⟨p, hp, hsouth⟩ := h.south
  obtain ⟨q, hq, hnorth⟩ := h.north
  obtain ⟨r, hr, hwest⟩ := h.west
  obtain ⟨s, hs, heast⟩ := h.east
  have hin := contains_iff.1 (h.contains p hp)
  exact ⟨le_trans (Location.isValid_iff.1 (hvalid p hp)).1.1 (le_of_beq hsouth),
    le_trans (ge_of_beq hnorth) (Location.isValid_iff.1 (hvalid q hq)).1.2,
    le_trans (Location.isValid_iff.1 (hvalid r hr)).2.1 (le_of_beq hwest),
    le_trans (ge_of_beq heast) (Location.isValid_iff.1 (hvalid s hs)).2.2,
    le_trans hin.1.1 hin.1.2, le_trans hin.2.1 hin.2.2⟩

theorem OnGlobe.isValid {b : BoundingBox} (h : b.OnGlobe) {p : Location}
    (hp : b.contains p = true) : p.isValid = true := by
  obtain ⟨hlat, hlon⟩ := contains_iff.1 hp
  exact Location.isValid_iff.2 ⟨⟨le_trans h.south hlat.1, le_trans hlat.2 h.north⟩,
    le_trans h.west hlon.1, le_trans hlon.2 h.east⟩

/-! ## The box of a list of points -/

/-- Of two numbers, a function picks the first in an order. -/
structure Picks (pick : Float → Float → Float) (R : Float → Float → Prop) : Prop where
  pick : ∀ {x y : Float}, x.isNaN = false → y.isNaN = false →
    (pick x y = x ∨ pick x y = y) ∧ R (pick x y) x ∧ R (pick x y) y
  trans : ∀ {x y z : Float}, R x y → R y z → R x z
  antisymm : ∀ {x y : Float}, R x y → R y x → (x == y) = true
  number : ∀ {x y : Float}, R x y → x.isNaN = false ∧ y.isNaN = false

theorem picks_min : Picks Binary64.min (· ≤ ·) :=
  ⟨min_spec, le_trans, beq_of_le_of_le, fun h => ⟨(le_iff.1 h).1, (le_iff.1 h).2.1⟩⟩

theorem picks_max : Picks Binary64.max (· ≥ ·) :=
  ⟨max_spec, fun h h' => le_trans h' h, fun h h' => beq_of_le_of_le h' h,
    fun h => ⟨(le_iff.1 h).2.1, (le_iff.1 h).1⟩⟩

section Fold
variable {pick : Float → Float → Float} {R : Float → Float → Prop}

/-- A fold of picks is one of the values, and none is before it. -/
theorem Picks.foldl_spec (hpicks : Picks pick R) (xs : List Float) {start : Float}
    (h : ∀ x ∈ start :: xs, x.isNaN = false) :
    xs.foldl pick start ∈ start :: xs ∧ ∀ x ∈ start :: xs, R (xs.foldl pick start) x := by
  induction xs generalizing start with
  | nil =>
    have hstart := h start List.mem_cons_self
    obtain ⟨hself, hR, -⟩ := hpicks.pick hstart hstart
    rw [or_self] at hself
    rw [hself] at hR
    refine ⟨List.mem_cons_self, fun x hx => ?_⟩
    rw [List.mem_singleton.1 hx]
    exact hR
  | cons y xs ih =>
    obtain ⟨hone, hRstart, hRy⟩ := hpicks.pick (h start List.mem_cons_self)
      (h y (List.mem_cons_of_mem _ List.mem_cons_self))
    have hkeep : ∀ x ∈ pick start y :: xs, x ∈ start :: y :: xs := by
      intro x hx
      rcases List.mem_cons.1 hx with rfl | hx
      · rcases hone with heq | heq <;> rw [heq] <;> simp
      · exact List.mem_cons_of_mem _ (List.mem_cons_of_mem _ hx)
    obtain ⟨hmem, hall⟩ := ih fun x hx => h x (hkeep x hx)
    have hfirst := hall _ List.mem_cons_self
    rw [List.foldl_cons]
    refine ⟨hkeep _ hmem, fun x hx => ?_⟩
    rcases List.mem_cons.1 hx with rfl | hx
    · exact hpicks.trans hfirst hRstart
    · rcases List.mem_cons.1 hx with rfl | hx
      · exact hpicks.trans hfirst hRy
      · exact hall x (List.mem_cons_of_mem _ hx)

/-- A fold of picks over a coordinate of some locations ends at one of them, if it starts after all
of them. -/
theorem Picks.foldl_coordinate (hpicks : Picks pick R) {points : List Location} (hne : points ≠ [])
    (coordinate : Location → Float) (start : Float) (h : ∀ p ∈ points, R (coordinate p) start) :
    (∀ p ∈ points, R ((points.map coordinate).foldl pick start) (coordinate p)) ∧
      ∃ p ∈ points, (coordinate p == (points.map coordinate).foldl pick start) = true := by
  obtain ⟨p, hp⟩ := List.exists_mem_of_ne_nil points hne
  have hnumber : ∀ x ∈ start :: points.map coordinate, x.isNaN = false := by
    intro x hx
    rcases List.mem_cons.1 hx with rfl | hx
    · exact (hpicks.number (h p hp)).2
    · obtain ⟨q, hq, rfl⟩ := List.mem_map.1 hx
      exact (hpicks.number (h q hq)).1
  obtain ⟨hmem, hall⟩ := hpicks.foldl_spec _ hnumber
  have hbefore : ∀ q ∈ points, R ((points.map coordinate).foldl pick start) (coordinate q) :=
    fun q hq => hall _ (List.mem_cons_of_mem _ (List.mem_map_of_mem hq))
  refine ⟨hbefore, ?_⟩
  rcases List.mem_cons.1 hmem with heq | hmem
  · refine ⟨p, hp, hpicks.antisymm ?_ (hbefore p hp)⟩
    rw [heq]
    exact h p hp
  · obtain ⟨q, hq, heq⟩ := List.mem_map.1 hmem
    exact ⟨q, hq, hpicks.antisymm (heq ▸ hall _ (List.mem_cons_of_mem _ hmem)) (hbefore q hq)⟩

end Fold

theorem foldl_insert (points : List Location) (b : BoundingBox) :
    points.foldl insert b =
      ⟨(points.map Location.lat).foldl Binary64.min b.minLat,
        (points.map Location.lat).foldl Binary64.max b.maxLat,
        (points.map Location.lon).foldl Binary64.min b.minLon,
        (points.map Location.lon).foldl Binary64.max b.maxLon⟩ := by
  induction points generalizing b with
  | nil => rfl
  | cons p points ih => exact ih (b.insert p)

theorem frames_ofPoints {points : List Location} (hne : points ≠ [])
    (hvalid : ∀ p ∈ points, p.isValid = true) : (ofPoints points).Frames points := by
  have hrange := fun p hp => Location.isValid_iff.1 (hvalid p hp)
  obtain ⟨hsouth, south⟩ :=
    picks_min.foldl_coordinate hne Location.lat 90.0 fun p hp => (hrange p hp).1.2
  obtain ⟨hnorth, north⟩ :=
    picks_max.foldl_coordinate hne Location.lat (-90.0) fun p hp => (hrange p hp).1.1
  obtain ⟨hwest, west⟩ :=
    picks_min.foldl_coordinate hne Location.lon 180.0 fun p hp => (hrange p hp).2.2
  obtain ⟨heast, east⟩ :=
    picks_max.foldl_coordinate hne Location.lon (-180.0) fun p hp => (hrange p hp).2.1
  rw [ofPoints, foldl_insert]
  exact ⟨fun p hp => contains_iff.2 ⟨⟨hsouth p hp, hnorth p hp⟩, hwest p hp, heast p hp⟩, south,
    north, west, east⟩

theorem frames_between {sw ne : Location} (hsw : sw.isValid = true) (hne : ne.isValid = true)
    (hlat : sw.lat ≤ ne.lat) (hlon : sw.lon ≤ ne.lon) :
    (BoundingBox.mk sw.lat ne.lat sw.lon ne.lon).Frames
      [sw, ⟨sw.lat, ne.lon⟩, ne, ⟨ne.lat, sw.lon⟩] := by
  have hself : ∀ {x : Float}, x.isFinite = true → (x == x) = true ∧ x ≤ x := fun h =>
    ⟨beq_self h, le_self (isNaN_of_isFinite h)⟩
  obtain ⟨hs, hs'⟩ := hself (Location.isFinite_lat hsw)
  obtain ⟨hn, hn'⟩ := hself (Location.isFinite_lat hne)
  obtain ⟨hw, hw'⟩ := hself (Location.isFinite_lon hsw)
  obtain ⟨he, he'⟩ := hself (Location.isFinite_lon hne)
  refine ⟨?_, ⟨sw, by simp, hs⟩, ⟨ne, by simp, hn⟩, ⟨sw, by simp, hw⟩, ⟨ne, by simp, he⟩⟩
  simp [contains_iff, hs', hn', hw', he', hlat, hlon]

end BoundingBox

/-! ## Corners of geofences -/

namespace Shape

/-- Rectangles and polygons are shapes of the plane. -/
def isPlane : Shape → Bool
  | circle _ _ => false
  | rectangle _ _ => true
  | polygon _ => true

theorem isPlane_or_circle (s : Shape) :
    s.isPlane = true ∨ ∃ center radius, s = .circle center radius := by
  cases s with
  | circle center radius => exact .inr ⟨center, radius, rfl⟩
  | rectangle sw ne => exact .inl rfl
  | polygon points => exact .inl rfl

theorem isValid_corner {s : Shape} (h : s.Accepted = true) :
    ∀ p ∈ s.corners, p.isValid = true := by
  cases s with
  | circle center radius => exact fun p hp => absurd hp List.not_mem_nil
  | rectangle sw ne =>
    simp only [Accepted, Bool.and_eq_true, decide_eq_true_eq] at h
    obtain ⟨⟨⟨hsw, hne⟩, -⟩, -⟩ := h
    have hs := Location.isValid_iff.1 hsw
    have hn := Location.isValid_iff.1 hne
    simp only [corners, List.mem_cons, List.not_mem_nil, or_false]
    intro p hp
    rcases hp with rfl | rfl | rfl | rfl
    · exact hsw
    · exact Location.isValid_iff.2 ⟨hs.1, hn.2⟩
    · exact hne
    · exact Location.isValid_iff.2 ⟨hn.1, hs.2⟩
  | polygon points =>
    simp only [Accepted, Bool.and_eq_true, List.all_eq_true] at h
    exact h.1

theorem frames_corners {s : Shape} (h : s.Accepted = true) (hplane : s.isPlane = true) :
    s.box.Frames s.corners := by
  have hvalid := isValid_corner h
  cases s with
  | circle center radius => cases hplane
  | rectangle sw ne =>
    simp only [Accepted, Bool.and_eq_true, decide_eq_true_eq] at h
    obtain ⟨⟨⟨hsw, hne⟩, hlat⟩, hlon⟩ := h
    exact BoundingBox.frames_between hsw hne hlat hlon
  | polygon points =>
    refine BoundingBox.frames_ofPoints (fun hnil => ?_) hvalid
    rw [hnil] at h
    simp [Accepted, countRuns] at h

end Shape

/-! ## Boxes of the plane -/

namespace Binary64

theorem le_iff_units {x y : Float} (hx : x.isFinite = true) (hy : y.isFinite = true) :
    x ≤ y ↔ units x ≤ units y := by
  rw [le_iff, extent_eq_units hx, extent_eq_units hy]
  exact ⟨fun h => h.2.2, fun h => ⟨isNaN_of_isFinite hx, isNaN_of_isFinite hy, h⟩⟩

/-- What the bits of an infinity or of NaN spell is not less than what those of any finite double
do. -/
theorem limit_le_units {x : Float} (h : x.isFinite = false) : limit ≤ (units x).natAbs := by
  have hfield : exponentField x = 2047 := by
    by_contra hne
    rw [isFinite_iff_exponentField.2 hne] at h
    cases h
  have habs : (units x).natAbs = unitsAbs x := by
    unfold units
    split <;> simp
  have hpow : limit = 2 ^ 52 * 2 ^ (topScale + 1) := by
    rw [limit, ← Nat.pow_add, ← Nat.pow_add]
    congr 1
  have hscale : 2047 - 1 = topScale + 1 := rfl
  rw [habs, unitsAbs, scale, significand, hfield, if_neg (by decide), Nat.shiftLeft_eq, hpow,
    hscale]
  exact Nat.mul_le_mul_right _ (Nat.le_add_right _ _)

/-- Comparing doubles with finite bounds is comparing units, also for those without a value. -/
theorem between_iff_units {lo hi : Float} (hlo : lo.isFinite = true) (hhi : hi.isFinite = true)
    (x : Float) : (lo ≤ x ∧ x ≤ hi) ↔ units lo ≤ units x ∧ units x ≤ units hi := by
  by_cases hx : x.isFinite = true
  · rw [le_iff_units hlo hx, le_iff_units hx hhi]
  · refine iff_of_false (fun h => hx (isFinite_of_between hlo hhi h.1 h.2)) fun h => ?_
    have hfar := limit_le_units (Bool.not_eq_true _ ▸ hx)
    have hlo' := (isFinite_iff.1 hlo).2
    have hhi' := (isFinite_iff.1 hhi).2
    rw [extent_eq_units hlo] at hlo'
    rw [extent_eq_units hhi] at hhi'
    omega

end Binary64

namespace BoundingBox

def toPlane (b : BoundingBox) : Plane.Box := ⟨b.southWest.toPlane, b.northEast.toPlane⟩

theorem OnGlobe.isValid_southWest {b : BoundingBox} (h : b.OnGlobe) : b.southWest.isValid = true :=
  Location.isValid_iff.2 ⟨⟨h.south, le_trans h.lat h.north⟩, h.west, le_trans h.lon h.east⟩

theorem OnGlobe.isValid_northEast {b : BoundingBox} (h : b.OnGlobe) : b.northEast.isValid = true :=
  Location.isValid_iff.2 ⟨⟨le_trans h.south h.lat, h.north⟩, le_trans h.west h.lon, h.east⟩

theorem OnGlobe.ordered {b : BoundingBox} (h : b.OnGlobe) :
    b.toPlane.lo.x ≤ b.toPlane.hi.x ∧ b.toPlane.lo.y ≤ b.toPlane.hi.y := by
  have hsw := h.isValid_southWest
  have hne := h.isValid_northEast
  exact ⟨(le_iff_units (Location.isFinite_lon hsw) (Location.isFinite_lon hne)).1 h.lon,
    (le_iff_units (Location.isFinite_lat hsw) (Location.isFinite_lat hne)).1 h.lat⟩

theorem contains_toPlane {b : BoundingBox} (h : b.OnGlobe) (p : Location) :
    b.toPlane.contains p.toPlane = b.contains p := by
  have hsw := h.isValid_southWest
  have hne := h.isValid_northEast
  have hlat := between_iff_units (Location.isFinite_lat hsw) (Location.isFinite_lat hne) p.lat
  have hlon := between_iff_units (Location.isFinite_lon hsw) (Location.isFinite_lon hne) p.lon
  rw [Bool.eq_iff_iff, Plane.Box.contains_iff, contains_iff, and_comm]
  exact (and_congr hlat hlon).symm

theorem meets_toPlane {b c : BoundingBox} (hb : b.OnGlobe) (hc : c.OnGlobe) :
    b.toPlane.meets c.toPlane = b.intersects c := by
  have hlat : ∀ {p q : Location}, p.isValid = true → q.isValid = true →
      (p.lat ≤ q.lat ↔ p.toPlane.y ≤ q.toPlane.y) := fun hp hq =>
    le_iff_units (Location.isFinite_lat hp) (Location.isFinite_lat hq)
  have hlon : ∀ {p q : Location}, p.isValid = true → q.isValid = true →
      (p.lon ≤ q.lon ↔ p.toPlane.x ≤ q.toPlane.x) := fun hp hq =>
    le_iff_units (Location.isFinite_lon hp) (Location.isFinite_lon hq)
  have hsouth := hlat hb.isValid_southWest hc.isValid_northEast
  have hnorth := hlat hc.isValid_southWest hb.isValid_northEast
  have hwest := hlon hb.isValid_southWest hc.isValid_northEast
  have heast := hlon hc.isValid_southWest hb.isValid_northEast
  dsimp only [southWest, northEast] at hsouth hnorth hwest heast
  rw [Bool.eq_iff_iff, Plane.Box.meets_iff, intersects]
  simp only [Bool.and_eq_true, decide_eq_true_eq]
  rw [hsouth, hnorth, hwest, heast]
  dsimp only [toPlane, southWest, northEast]
  exact ⟨fun h => ⟨⟨h.2, h.1.1⟩, h.1.2⟩, fun h => ⟨⟨h.1.2, h.2⟩, h.1.1⟩⟩

end BoundingBox

end Geocast
