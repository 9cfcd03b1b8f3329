import Geocast.Proofs.Geofence.Covered

/-!
# Boxes by what they contain

The tests of boxes compare sides. For boxes whose sides are in order they say what they are about:
boxes intersect when a location is in both, and a box covers another when all that the other
contains is in it. So covering is an order, and the box of a list of locations is the least one
around them in that order.

* `Ordered`: a box whose sides are in order.
* `intersects_iff_exists`, `covers_iff_forall`: the two tests.
* `ofPoints_least`: the box of a list of locations.
* `compare_by_contents`: all of it.
-/
namespace Geocast.BoundingBox
open Binary64

/-- The sides of a box are in order, so they are numbers. -/
structure Ordered (b : BoundingBox) : Prop where
  lat : b.minLat ≤ b.maxLat
  lon : b.minLon ≤ b.maxLon

theorem intersects_iff {a b : BoundingBox} : a.intersects b = true ↔
    (a.minLat ≤ b.maxLat ∧ b.minLat ≤ a.maxLat) ∧ a.minLon ≤ b.maxLon ∧ b.minLon ≤ a.maxLon := by
  simp only [intersects, Bool.and_eq_true, decide_eq_true_eq, and_assoc]

theorem covers_iff {a b : BoundingBox} : a.covers b = true ↔
    (a.minLat ≤ b.minLat ∧ b.maxLat ≤ a.maxLat) ∧ a.minLon ≤ b.minLon ∧ b.maxLon ≤ a.maxLon := by
  simp only [covers, Bool.and_eq_true, decide_eq_true_eq, and_assoc]

theorem Ordered.contains_corners {b : BoundingBox} (h : b.Ordered) :
    b.contains b.southWest = true ∧ b.contains b.northEast = true := by
  obtain ⟨hminLat, hmaxLat, -⟩ := le_iff.1 h.lat
  obtain ⟨hminLon, hmaxLon, -⟩ := le_iff.1 h.lon
  exact ⟨contains_iff.2 ⟨⟨le_self hminLat, h.lat⟩, le_self hminLon, h.lon⟩,
    contains_iff.2 ⟨⟨h.lat, le_self hmaxLat⟩, h.lon, le_self hmaxLon⟩⟩

/-! ## Common locations -/

/-- Two ranges of numbers that reach each other have the larger of their starts in common. -/
theorem max_between {lo hi lo' hi' : Float} (h : lo ≤ hi) (h' : lo' ≤ hi') (hcross : lo ≤ hi')
    (hcross' : lo' ≤ hi) :
    (lo ≤ Binary64.max lo lo' ∧ Binary64.max lo lo' ≤ hi) ∧
      lo' ≤ Binary64.max lo lo' ∧ Binary64.max lo lo' ≤ hi' := by
  obtain ⟨hone, hleft, hright⟩ := max_spec (le_iff.1 h).1 (le_iff.1 h').1
  refine ⟨⟨hleft, ?_⟩, hright, ?_⟩
  · rcases hone with heq | heq <;> rw [heq]
    · exact h
    · exact hcross'
  · rcases hone with heq | heq <;> rw [heq]
    · exact hcross
    · exact h'

theorem intersects_iff_exists {a b : BoundingBox} (ha : a.Ordered) (hb : b.Ordered) :
    a.intersects b = true ↔ ∃ p, a.contains p = true ∧ b.contains p = true := by
  constructor
  · intro h
    obtain ⟨⟨hsouth, hnorth⟩, hwest, heast⟩ := intersects_iff.1 h
    obtain ⟨halat, hblat⟩ := max_between ha.lat hb.lat hsouth hnorth
    obtain ⟨halon, hblon⟩ := max_between ha.lon hb.lon hwest heast
    exact ⟨⟨Binary64.max a.minLat b.minLat, Binary64.max a.minLon b.minLon⟩,
      contains_iff.2 ⟨halat, halon⟩, contains_iff.2 ⟨hblat, hblon⟩⟩
  · rintro ⟨p, hap, hbp⟩
    exact (intersects_of_common hap hbp).1

/-! ## Covering -/

theorem covers_iff_forall {a b : BoundingBox} (hb : b.Ordered) :
    a.covers b = true ↔ ∀ p, b.contains p = true → a.contains p = true := by
  refine ⟨fun h p hp => contains_of_covers h hp, fun h => ?_⟩
  obtain ⟨hsw, hne⟩ := hb.contains_corners
  obtain ⟨⟨hsouth, -⟩, hwest, -⟩ := contains_iff.1 (h _ hsw)
  obtain ⟨⟨-, hnorth⟩, -, heast⟩ := contains_iff.1 (h _ hne)
  exact covers_iff.2 ⟨⟨hsouth, hnorth⟩, hwest, heast⟩

theorem covers_trans {a b c : BoundingBox} (hab : a.covers b = true) (hbc : b.covers c = true) :
    a.covers c = true := by
  obtain ⟨⟨hsouth, hnorth⟩, hwest, heast⟩ := covers_iff.1 hab
  obtain ⟨⟨hsouth', hnorth'⟩, hwest', heast'⟩ := covers_iff.1 hbc
  exact covers_iff.2 ⟨⟨le_trans hsouth hsouth', le_trans hnorth' hnorth⟩,
    le_trans hwest hwest', le_trans heast' heast⟩

/-! ## The box of a list of locations -/

theorem Frames.covers {b box : BoundingBox} {points : List Location} (h : b.Frames points)
    (hbox : ∀ p ∈ points, box.contains p = true) : box.covers b = true := by
  obtain ⟨p, hp, hsouth⟩ := h.south
  obtain ⟨q, hq, hnorth⟩ := h.north
  obtain ⟨r, hr, hwest⟩ := h.west
  obtain ⟨s, hs, heast⟩ := h.east
  exact covers_iff.2
    ⟨⟨le_trans (contains_iff.1 (hbox p hp)).1.1 (le_of_beq hsouth),
      le_trans (ge_of_beq hnorth) (contains_iff.1 (hbox q hq)).1.2⟩,
    le_trans (contains_iff.1 (hbox r hr)).2.1 (le_of_beq hwest),
    le_trans (ge_of_beq heast) (contains_iff.1 (hbox s hs)).2.2⟩

/-- The box of locations on the globe is ordered, contains them, and every box that contains them
covers it. -/
theorem ofPoints_least {points : List Location} (hne : points ≠ [])
    (hvalid : ∀ p ∈ points, p.isValid = true) :
    (ofPoints points).Ordered ∧ (∀ p ∈ points, (ofPoints points).contains p = true) ∧
      ∀ box : BoundingBox, (∀ p ∈ points, box.contains p = true) →
        box.covers (ofPoints points) = true := by
  have hframes := frames_ofPoints hne hvalid
  have hglobe := hframes.onGlobe hvalid
  exact ⟨⟨hglobe.lat, hglobe.lon⟩, hframes.contains, fun box hbox => hframes.covers hbox⟩

/-- Ordered boxes intersect when some location is in both, and one covers the other when it contains
all that the other does. Covering is reflexive and transitive, and boxes of which one covers the
other intersect. The box of a list of locations on the globe is the least of the ordered boxes that
contain all of them. -/
theorem compare_by_contents :
    (∀ a b : BoundingBox, a.Ordered → b.Ordered →
      (a.intersects b = true ↔ ∃ p, a.contains p = true ∧ b.contains p = true) ∧
      (a.covers b = true ↔ ∀ p, b.contains p = true → a.contains p = true) ∧
      (a.covers b = true → a.intersects b = true)) ∧
    (∀ a : BoundingBox, a.Ordered → a.covers a = true) ∧
    (∀ a b c : BoundingBox, a.covers b = true → b.covers c = true → a.covers c = true) ∧
    ∀ points : List Location, points ≠ [] → (∀ p ∈ points, p.isValid = true) →
      (ofPoints points).Ordered ∧ (∀ p ∈ points, (ofPoints points).contains p = true) ∧
      ∀ box : BoundingBox, (∀ p ∈ points, box.contains p = true) →
        box.covers (ofPoints points) = true := by
  refine ⟨?_, ?_, fun a b c => covers_trans, fun points => ofPoints_least⟩
  · intro a b ha hb
    refine ⟨intersects_iff_exists ha hb, covers_iff_forall hb, fun hcovers => ?_⟩
    have hcorner := hb.contains_corners.1
    exact (intersects_iff_exists ha hb).2 ⟨b.southWest, contains_of_covers hcovers hcorner, hcorner⟩
  · intro a ha
    exact (covers_iff_forall ha).2 fun p hp => hp

/-- Two boxes with one corner in common, and two locations whose box is around both of them. -/
theorem compare_touching_boxes :
    let a := BoundingBox.mk 0.0 1.0 0.0 1.0
    let b := BoundingBox.mk 1.0 2.0 1.0 2.0
    let points := [Location.mk 2.0 (-1.0), Location.mk 0.0 3.0]
    a.Ordered ∧ b.Ordered ∧ (∃ p, a.contains p = true ∧ b.contains p = true) ∧
      (¬ ∀ p, b.contains p = true → a.contains p = true) ∧ (∀ p ∈ points, p.isValid = true) ∧
      (ofPoints points).covers b = true ∧ (ofPoints points).intersects b = true := by
  intro a b points
  obtain ⟨hpairs, -, htrans, hpoints⟩ := compare_by_contents
  have ha : a.Ordered := ⟨by decide +kernel, by decide +kernel⟩
  have hb : b.Ordered := ⟨by decide +kernel, by decide +kernel⟩
  obtain ⟨hmeets, hcovers, -⟩ := hpairs a b ha hb
  have hvalid : ∀ p ∈ points, p.isValid = true := by decide +kernel
  obtain ⟨hordered, -, hleast⟩ := hpoints points (List.cons_ne_nil _ _) hvalid
  have hself := hleast (ofPoints points) (by decide +kernel)
  have hcovered : (ofPoints points).covers b = true :=
    htrans _ _ _ hself (by decide +kernel)
  refine ⟨ha, hb, hmeets.1 (by decide +kernel), ?_, hvalid, hcovered,
    (hpairs _ b hordered hb).2.2 hcovered⟩
  rw [← hcovers]
  decide +kernel

end Geocast.BoundingBox
