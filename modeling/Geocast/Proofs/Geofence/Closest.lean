import Geocast.Proofs.Geofence.Globe
import Geocast.Proofs.Number.Alike
import Geocast.Proofs.Number.Bounds
import Geocast.Proofs.Number.Least

/-!
# Circles that reach a corner or have their centre inside

The closest point of an edge comes out of samples, a search between them and a minimum of both, and
NaN may enter at each; the farthest point comes out of the same with the sign turned. Still no
sample whose distance is a number is closer than the closest point. The first sample is where the
edge starts, and every corner starts an edge or repeats one that does, so circles that contain a
corner are seen.

* `minimize_le`: the least value found is at most every sample.
* `Segment.distance_sample`, `Segment.distance_source`: samples and starts of edges lie between the
  closest and the farthest distance.
* `Shape.exists_segment_of_corner`: every corner starts an edge, up to the signs of zeros.
* `intersects_of_corner`, `intersects_of_planeContains`: circles that reach a shape of the plane.
* `intersects_of_reached`: all of it.
-/
namespace Geocast
open Binary64

/-! ## Samples -/

/-- The better of two samples costs no more than either that has a number for its cost. -/
theorem Sample.better_spec {s t : Sample} (hs : s.cost.isNaN = false) :
    (s.better t).cost ≤ s.cost ∧ (t.cost.isNaN = false → (s.better t).cost ≤ t.cost) := by
  unfold better
  split
  next hlt => exact ⟨le_of_lt hlt, le_self⟩
  next hlt => exact ⟨le_self hs, fun ht => le_of_not_lt ht hs hlt⟩

theorem foldl_better_le (sample : Nat → Sample) (indices : List Nat) {start : Sample}
    (h : start.cost.isNaN = false) :
    (indices.foldl (fun best i => best.better (sample i)) start).cost ≤ start.cost ∧
      ∀ i ∈ indices, (sample i).cost.isNaN = false →
        (indices.foldl (fun best i => best.better (sample i)) start).cost ≤ (sample i).cost := by
  induction indices generalizing start with
  | nil => exact ⟨le_self h, fun i hi => absurd hi List.not_mem_nil⟩
  | cons j indices ih =>
    obtain ⟨hfirst, hsample⟩ := Sample.better_spec (t := sample j) h
    obtain ⟨hbest, hall⟩ := ih (le_iff.1 hfirst).1
    refine ⟨le_trans hbest hfirst, fun i hi hnumber => ?_⟩
    rcases List.mem_cons.1 hi with rfl | hi
    · exact le_trans hbest (hsample hnumber)
    · exact hall i hi hnumber

/-- The least value found costs no more than any sample that has a number for its cost, whatever
the refinement between the samples gives. -/
theorem minimize_le (cost : Float → Float) {steps i : Nat} (hi : i ≤ steps)
    (h : (cost (sampleAt i steps)).isNaN = false) :
    minimize cost steps ≤ cost (sampleAt i steps) := by
  have hstart : (Sample.mk 0 infinity).cost.isNaN = false := rfl
  obtain ⟨-, hall⟩ := foldl_better_le (fun i => ⟨i, cost (sampleAt i steps)⟩)
    (List.range (steps + 1)) hstart
  have hbest : (bestSample cost steps).cost ≤ cost (sampleAt i steps) :=
    hall i (List.mem_range.2 (by omega)) h
  exact le_trans (min_le_right (le_iff.1 hbest).1) hbest

/-! ## Distances -/

namespace Trigonometry

theorem abs_lt_tiny {x : Float} (h : IsZero x) : x.abs < tiny :=
  lt_iff.2 ⟨h.abs.isNaN, by decide +kernel, by rw [h.abs.extent]; decide +kernel⟩

theorem sin_of_isZero {x : Float} (h : IsZero x) : sin x = x := by
  rw [sin, h.isFinite, if_neg (by decide), if_pos (abs_lt_tiny h)]

theorem cos_of_isZero {x : Float} (h : IsZero x) : cos x = 1.0 := by
  rw [cos, h.isFinite, if_neg (by decide), if_pos (abs_lt_tiny h)]

end Trigonometry

namespace Location

theorem alike_toRadians {x y : Float} (h : Alike x y) : Alike (toRadians x) (toRadians y) := h.mul _

/-- The sign of a zero makes no difference to a haversine. -/
theorem haversine_congr {x y : Float} (h : Alike x y) : haversine x = haversine y := by
  rcases h with heq | ⟨hx, hy⟩
  · rw [haversine, haversine, div_congr heq]
  · have hhalf : ∀ {z : Float}, IsZero z → IsZero (z / 2.0) := by
      rintro z ⟨s, hs⟩
      exact ⟨s, by rw [unpack_div, hs]; cases s <;> rfl⟩
    rw [haversine, haversine, Trigonometry.sin_of_isZero (hhalf hx),
      Trigonometry.sin_of_isZero (hhalf hy)]
    exact (hhalf hx).mul_self_eq (hhalf hy)

theorem cos_toRadians_congr {x y : Float} (h : Alike x y) :
    Trigonometry.cos (toRadians x) = Trigonometry.cos (toRadians y) := by
  rcases h with heq | ⟨hx, hy⟩
  · rw [toRadians, toRadians, mul_congr heq]
  · have hzero : ∀ {z : Float}, IsZero z → IsZero (toRadians z) := by
      rintro z ⟨s, hs⟩
      exact ⟨s, by rw [toRadians, unpack_mul, hs]; cases s <;> rfl⟩
    rw [Trigonometry.cos_of_isZero (hzero hx), Trigonometry.cos_of_isZero (hzero hy)]

theorem distance_congr (p : Location) {q q' : Location} (hlat : Alike q.lat q'.lat)
    (hlon : Alike q.lon q'.lon) : p.distance q = p.distance q' := by
  have hchord : p.viewpoint.halfChordSquare q = p.viewpoint.halfChordSquare q' := by
    rw [Viewpoint.halfChordSquare, Viewpoint.halfChordSquare, cos_toRadians_congr hlat,
      haversine_congr (alike_toRadians (hlat.sub _)),
      haversine_congr (alike_toRadians (hlon.sub _))]
  rw [distance, distance, Viewpoint.distance, Viewpoint.distance, Viewpoint.centralAngle,
    Viewpoint.centralAngle, hchord]

/-- Locations that are equal as numbers are equally far from everywhere. -/
theorem distance_of_beq (p : Location) {q q' : Location} (hq : q.isValid = true)
    (hq' : q'.isValid = true) (h : (q == q') = true) : p.distance q = p.distance q' := by
  obtain ⟨hlat, hlon⟩ := (Bool.and_eq_true _ _).mp h
  exact distance_congr p (alike_of_beq (isFinite_lat hq) (isFinite_lat hq') hlat)
    (alike_of_beq (isFinite_lon hq) (isFinite_lon hq') hlon)

end Location

/-! ## Edges -/

namespace Segment

/-- No sample of an edge is closer than its closest point or farther than its farthest. -/
theorem distance_sample {s : Segment} (p : Location) {i : Nat} (hi : i ≤ s.steps)
    (h : (p.distance (s.point (sampleAt i s.steps))).isNaN = false) :
    s.closest p ≤ p.distance (s.point (sampleAt i s.steps)) ∧
      p.distance (s.point (sampleAt i s.steps)) ≤ s.farthest p := by
  refine ⟨minimize_le (fun t => p.distance (s.point t)) hi h, le_neg_of_le_neg ?_⟩
  exact minimize_le (fun t => -p.distance (s.point t)) hi ((isNaN_neg _).trans h)

/-- An edge has finite ends that are a finite difference apart. -/
structure IsFinite (s : Segment) : Prop where
  lat : s.source.lat.isFinite = true
  lon : s.source.lon.isFinite = true
  height : (s.target.lat - s.source.lat).isFinite = true
  width : (s.target.lon - s.source.lon).isFinite = true

theorem steps_pos (s : Segment) : 0 < s.steps :=
  Nat.lt_of_lt_of_le Nat.one_pos (Nat.le_max_left _ _)

theorem distance_first {s : Segment} (h : s.IsFinite) (p : Location) :
    p.distance (s.point (sampleAt 0 s.steps)) = p.distance s.source := by
  have hzero : IsZero (sampleAt 0 s.steps) := isZero_zero_div s.steps_pos
  exact Location.distance_congr p (alike_add_zero h.lat (hzero.mul h.height))
    (alike_add_zero h.lon (hzero.mul h.width))

/-- The start of an edge is no closer than its closest point and no farther than its farthest. -/
theorem distance_source {s : Segment} (h : s.IsFinite) (p : Location)
    (hnumber : (p.distance s.source).isNaN = false) :
    s.closest p ≤ p.distance s.source ∧ p.distance s.source ≤ s.farthest p := by
  rw [← distance_first h] at hnumber ⊢
  exact distance_sample p (Nat.zero_le _) hnumber

end Segment

/-! ## Outlines -/

theorem isFinite_sub {x y : Float} (hx : -180.0 ≤ x ∧ x ≤ 180.0) (hy : -180.0 ≤ y ∧ y ≤ 180.0) :
    (x - y).isFinite = true := by
  have hseam : (180.0 : Float).isFinite = true := rfl
  have hseam' : (-180.0 : Float).isFinite = true := rfl
  have hfx := isFinite_of_between hseam' hseam hx.1 hx.2
  have hfy := isFinite_of_between hseam' hseam hy.1 hy.2
  have hturn : (360.0 : Float).isFinite = true := rfl
  have htwice : extent 180.0 - extent (-180.0) ≤ extent 360.0 := by decide +kernel
  rw [le_iff, le_iff] at hx hy
  refine isFinite_iff.2 ⟨isNaN_sub hfx hfy, ?_⟩
  rw [extent_sub hfx hfy]
  exact (natAbs_rounded_le hturn (by omega)).trans_lt (isFinite_iff.1 hturn).2

theorem Segment.isFinite {s : Segment} (hs : s.source.isValid = true)
    (ht : s.target.isValid = true) : s.IsFinite := by
  have hwide : (-180.0 : Float) ≤ -90.0 ∧ (90.0 : Float) ≤ 180.0 := by decide +kernel
  have hlat : ∀ {p : Location}, p.isValid = true → -180.0 ≤ p.lat ∧ p.lat ≤ 180.0 := by
    intro p hp
    obtain ⟨hsouth, hnorth⟩ := (Location.isValid_iff.1 hp).1
    exact ⟨le_trans hwide.1 hsouth, le_trans hnorth hwide.2⟩
  exact ⟨Location.isFinite_lat hs, Location.isFinite_lon hs, isFinite_sub (hlat ht) (hlat hs),
    isFinite_sub (Location.isValid_iff.1 ht).2 (Location.isValid_iff.1 hs).2⟩

namespace Shape

theorem mem_closedCorners {s : Shape} {v : Location} (h : v ∈ s.closedCorners) :
    v ∈ s.corners := by
  unfold closedCorners at h
  split at h
  next heq => rwa [heq]
  next p rest heq =>
    rw [heq]
    split at h
    · exact h
    · rcases List.mem_append.1 h with h | h
      · exact h
      · rw [List.mem_singleton.1 h]
        exact List.mem_cons_self

theorem map_source_segments (s : Shape) :
    s.segments.map Segment.source = s.closedCorners.dropLast := by
  apply List.ext_getElem
  · simp [segments]
  · intro i hi hi'
    simp [segments]

theorem isValid_segment {s : Shape} (h : s.Accepted = true) {e : Segment} (he : e ∈ s.segments) :
    e.source.isValid = true ∧ e.target.isValid = true := by
  obtain ⟨i, hi, rfl⟩ := List.mem_iff_getElem.1 he
  simp only [segments, List.getElem_zipWith]
  exact ⟨isValid_corner h _ (mem_closedCorners (List.getElem_mem _)),
    isValid_corner h _ (mem_closedCorners (List.mem_of_mem_tail (List.getElem_mem _)))⟩

theorem corners_ne_singleton {s : Shape} (h : s.Accepted = true) (p : Location) :
    s.corners ≠ [p] := by
  intro heq
  cases s with
  | circle center radius => cases heq
  | rectangle sw ne => cases heq
  | polygon points =>
    obtain rfl : points = [p] := heq
    simp [Accepted, countRuns] at h

/-- Every corner of a rectangle or polygon is where an edge starts, up to the signs of zeros: a last
corner that starts none repeats the first. -/
theorem exists_segment_of_corner {s : Shape} (h : s.Accepted = true) {v : Location}
    (hv : v ∈ s.corners) : ∃ e ∈ s.segments, (e.source == v) = true := by
  have hself : ∀ p ∈ s.corners, (p == p) = true :=
    fun p hp => Location.beq_self (isValid_corner h p hp)
  suffices hstart : ∃ p ∈ s.closedCorners.dropLast, (p == v) = true by
    obtain ⟨p, hp, heq⟩ := hstart
    rw [← map_source_segments] at hp
    obtain ⟨e, he, rfl⟩ := List.mem_map.1 hp
    exact ⟨e, he, heq⟩
  unfold closedCorners
  split
  next heq => rw [heq] at hv; cases hv
  next p rest heq =>
    have hsingle := corners_ne_singleton h p
    rw [heq] at hv hself hsingle
    split
    next hclosed =>
      have hne : (p :: rest) ≠ [] := List.cons_ne_nil _ _
      rw [List.head?_cons, List.getLast?_eq_some_getLast hne] at hclosed
      rw [← List.dropLast_append_getLast hne, List.mem_append, List.mem_singleton] at hv
      rcases hv with hv | rfl
      · exact ⟨v, hv, hself v (List.mem_of_mem_dropLast hv)⟩
      · refine ⟨p, ?_, hclosed⟩
        cases rest with
        | nil => exact absurd rfl hsingle
        | cons q rest => exact List.mem_cons_self
    next hopen => exact ⟨v, by rwa [List.dropLast_concat], hself v hv⟩

theorem distanceFrom_le {s : Shape} {p : Location} {e : Segment} {r : Float} (he : e ∈ s.segments)
    (hr : 0.0 ≤ r) (hclosest : e.closest p ≤ r) : s.distanceFrom p ≤ r := by
  unfold distanceFrom
  split
  · exact hr
  · have hmem : e.closest p ∈ s.segments.map (·.closest p) := List.mem_map_of_mem he
    exact le_trans (foldl_min_le hmem (le_iff.1 hclosest).1 _) hclosest

theorem distanceFrom_le_of_corner {s : Shape} (h : s.Accepted = true) {p v : Location} {r : Float}
    (hv : v ∈ s.corners) (hr : 0.0 ≤ r) (hdistance : p.distance v ≤ r) : s.distanceFrom p ≤ r := by
  obtain ⟨e, he, heq⟩ := exists_segment_of_corner h hv
  obtain ⟨hsource, htarget⟩ := isValid_segment h he
  rw [← Location.distance_of_beq p hsource (isValid_corner h v hv) heq] at hdistance
  obtain ⟨hclosest, -⟩ :=
    Segment.distance_source (Segment.isFinite hsource htarget) p (le_iff.1 hdistance).1
  exact distanceFrom_le he hr (le_trans hclosest hdistance)

/-- A shape is no closer than its closest edge unless the location lies inside. -/
theorem not_distanceFrom_le {s : Shape} {p : Location} {r : Float}
    (houtside : s.planeContains p = false) (hr : r.isFinite = true)
    (hfar : ∀ e ∈ s.segments, ¬ e.closest p ≤ r) : ¬ s.distanceFrom p ≤ r := by
  rw [distanceFrom, houtside, if_neg Bool.false_ne_true]
  rcases foldl_min_mem (s.segments.map (·.closest p)) infinity with heq | hmem
  · rw [heq]
    exact not_le_of_infinity rfl hr
  · obtain ⟨e, he, heq⟩ := List.mem_map.1 hmem
    rw [← heq]
    exact hfar e he

theorem segments_rectangle {sw ne : Location} (h : (sw == ⟨ne.lat, sw.lon⟩) = false) :
    (rectangle sw ne).segments =
      [⟨sw, ⟨sw.lat, ne.lon⟩⟩, ⟨⟨sw.lat, ne.lon⟩, ne⟩, ⟨ne, ⟨ne.lat, sw.lon⟩⟩,
        ⟨⟨ne.lat, sw.lon⟩, sw⟩] := by
  have hopen : ¬ (some sw == some ⟨ne.lat, sw.lon⟩) = true := ne_true_of_eq_false h
  have hclosed : (rectangle sw ne).closedCorners =
      [sw, ⟨sw.lat, ne.lon⟩, ne, ⟨ne.lat, sw.lon⟩, sw] := if_neg hopen
  rw [segments, hclosed]
  rfl

theorem meets_circle {s : Shape} (h : s.isPlane = true) (center : Location) (radius : Float) :
    (circle center radius).meets s = decide (s.distanceFrom center ≤ radius) ∧
      s.meets (circle center radius) = decide (s.distanceFrom center ≤ radius) := by
  cases s with
  | circle center radius => cases h
  | rectangle sw ne => exact ⟨rfl, rfl⟩
  | polygon points => exact ⟨rfl, rfl⟩

end Shape

theorem BoundingBox.intersects_of_common {a b : BoundingBox} {p : Location}
    (ha : a.contains p = true) (hb : b.contains p = true) :
    a.intersects b = true ∧ b.intersects a = true := by
  obtain ⟨⟨has, han⟩, haw, hae⟩ := contains_iff.1 ha
  obtain ⟨⟨hbs, hbn⟩, hbw, hbe⟩ := contains_iff.1 hb
  have hsouth := le_trans has hbn
  have hnorth := le_trans hbs han
  have hwest := le_trans haw hbe
  have heast := le_trans hbw hae
  simp [intersects, hsouth, hnorth, hwest, heast]

namespace Geofence

/-- A circle whose box meets that of a rectangle or polygon and whose centre is close enough
intersects it, asked from either side. -/
theorem intersects_of_distanceFrom {c g : Geofence} {center p : Location} {radius : Float}
    (hc : c.shape = .circle center radius) (hg : g.shape.isPlane = true)
    (hcp : c.box.contains p = true) (hgp : g.box.contains p = true)
    (hdistance : g.shape.distanceFrom center ≤ radius) :
    c.intersects g = true ∧ g.intersects c = true := by
  obtain ⟨hboxes, hboxes'⟩ := BoundingBox.intersects_of_common hcp hgp
  obtain ⟨hmeets, hmeets'⟩ := Shape.meets_circle hg center radius
  rw [intersects, intersects, hboxes, hboxes', hc, hmeets, hmeets', decide_eq_true hdistance]
  exact ⟨rfl, rfl⟩

theorem radius_spec {c : Geofence} {center : Location} {radius : Float}
    (hc : c.shape = .circle center radius) : radius.isFinite = true ∧ 0.0 ≤ radius := by
  have haccepted := c.accepted
  rw [hc] at haccepted
  simp only [Shape.Accepted, Shape.acceptsRadius, Bool.and_eq_true, decide_eq_true_eq] at haccepted
  exact ⟨haccepted.2.1.1, le_of_lt haccepted.2.1.2⟩

theorem intersects_of_corner {c g : Geofence} {center v : Location} {radius : Float}
    (hc : c.shape = .circle center radius) (hg : g.shape.isPlane = true)
    (hv : v ∈ g.shape.corners) (hcv : c.contains v = true) :
    c.intersects g = true ∧ g.intersects c = true := by
  have hdistance : center.distance v ≤ radius := by
    rw [contains, hc, Bool.and_eq_true, decide_eq_true_eq] at hcv
    exact hcv.2
  exact intersects_of_distanceFrom hc hg (box_contains_of_contains hcv)
    ((frames_box hg).contains v hv)
    (Shape.distanceFrom_le_of_corner g.accepted hv (radius_spec hc).2 hdistance)

theorem intersects_of_planeContains {c g : Geofence} {center : Location} {radius : Float}
    (hc : c.shape = .circle center radius) (hg : g.shape.isPlane = true)
    (hbox : g.box.contains center = true) (hcenter : g.shape.planeContains center = true) :
    c.intersects g = true ∧ g.intersects c = true := by
  refine intersects_of_distanceFrom hc hg (box_of_circle hc).2 hbox ?_
  rw [Shape.distanceFrom, hcenter]
  exact (radius_spec hc).2

/-- A rectangle or polygon contains what its box and its region do; a rectangle, which looks at its
box alone, where sides are told exactly. -/
theorem planeContains_of_contains {g : Geofence} (hg : g.shape.isPlane = true) {p : Location}
    (hexact : (∃ sw ne, g.shape = .rectangle sw ne) → Plane.Exact (p.toPlane :: g.shape.ring))
    (hp : g.contains p = true) : g.shape.planeContains p = true := by
  cases hshape : g.shape with
  | circle center radius =>
    rw [hshape] at hg
    cases hg
  | rectangle sw ne =>
    rw [← hshape, ← contains_eq_planeContains hg (hexact ⟨sw, ne, hshape⟩)]
    exact hp
  | polygon points =>
    rw [contains_of_polygon hshape, Bool.and_eq_true, hshape] at hp
    exact hp.2

/-- A circle that contains a corner of a rectangle or polygon intersects it, asked from either side,
and so does one whose centre is contained; for the centre in a rectangle, which looks at its box
alone, sides must be told exactly. Behind this stands what holds for every edge, whatever the search
between the samples gives: its closest point is no farther, and its farthest no closer, than any
sample whose distance is a number and than the end where it starts. -/
theorem intersects_of_reached {c g : Geofence} {center : Location} {radius : Float}
    (hc : c.shape = .circle center radius) (hg : g.shape.isPlane = true) :
    ((∃ v ∈ g.shape.corners, c.contains v = true) →
      c.intersects g = true ∧ g.intersects c = true) ∧
    (g.contains center = true →
      ((∃ sw ne, g.shape = .rectangle sw ne) → Plane.Exact (center.toPlane :: g.shape.ring)) →
        c.intersects g = true ∧ g.intersects c = true) ∧
    (∀ (e : Segment) (p : Location), e.IsFinite → (p.distance e.source).isNaN = false →
      e.closest p ≤ p.distance e.source ∧ p.distance e.source ≤ e.farthest p) ∧
    (∀ (e : Segment) (p : Location) (i : Nat), i ≤ e.steps →
      (p.distance (e.point (sampleAt i e.steps))).isNaN = false →
        e.closest p ≤ p.distance (e.point (sampleAt i e.steps)) ∧
          p.distance (e.point (sampleAt i e.steps)) ≤ e.farthest p) ∧
    ∀ (cost : Float → Float) (steps i : Nat), i ≤ steps →
      (cost (sampleAt i steps)).isNaN = false → minimize cost steps ≤ cost (sampleAt i steps) := by
  refine ⟨fun ⟨v, hv, hcv⟩ => intersects_of_corner hc hg hv hcv, fun hcenter hexact => ?_,
    fun e p hfinite => Segment.distance_source hfinite p, fun e p i => Segment.distance_sample p,
    fun cost steps i => minimize_le cost⟩
  exact intersects_of_planeContains hc hg (box_contains_of_contains hcenter)
    (planeContains_of_contains hg hexact hcenter)

/-- A circle around a corner of a square that reaches the next one, and a small circle in the
middle. -/
theorem intersects_of_reached_square :
    let square := ofAccepted (.rectangle ⟨0.0, 0.0⟩ ⟨12.0, 12.0⟩) (by decide +kernel)
    let wide := ofAccepted (.circle ⟨0.0, -1.0⟩ 2.0) (by decide +kernel)
    let small := ofAccepted (.circle ⟨6.0, 6.0⟩ 1.0) (by decide +kernel)
    let south : Segment := ⟨⟨0.0, 0.0⟩, ⟨0.0, 12.0⟩⟩
    wide.contains ⟨0.0, 0.0⟩ = true ∧ wide.intersects square = true ∧
      square.contains ⟨6.0, 6.0⟩ = true ∧ small.intersects square = true ∧
      square.intersects small = true ∧
      south.closest ⟨0.0, -1.0⟩ ≤ (⟨0.0, -1.0⟩ : Location).distance ⟨0.0, 0.0⟩ := by
  intro square wide small south
  have hcorner : wide.contains ⟨0.0, 0.0⟩ = true := by decide +kernel
  have hcenter : square.contains ⟨6.0, 6.0⟩ = true := by decide +kernel
  have hexact : Plane.Exact ((⟨6.0, 6.0⟩ : Location).toPlane :: square.shape.ring) :=
    Plane.exact_of_isPlain (by decide +kernel)
  have hfinite : south.IsFinite :=
    ⟨by decide +kernel, by decide +kernel, by decide +kernel, by decide +kernel⟩
  obtain ⟨hreach, -, hedges, -⟩ := intersects_of_reached (c := wide) (g := square) rfl rfl
  obtain ⟨-, hinside, -⟩ := intersects_of_reached (c := small) (g := square) rfl rfl
  obtain ⟨hsmall, hsmall'⟩ := hinside hcenter fun _ => hexact
  exact ⟨hcorner, (hreach ⟨_, List.mem_cons_self, hcorner⟩).1, hcenter, hsmall, hsmall',
    (hedges south ⟨0.0, -1.0⟩ hfinite (by decide +kernel)).1⟩

/-- Where sides are not told exactly, the contained centre of a circle may be missed: in a rectangle
so low that the area of a triangle at its east side is below the least double, the centre counts as
outside of the region, and no edge comes as close as the radius. -/
theorem low_rectangle_missed :
    let low := ofAccepted (.rectangle ⟨-5e-324, 0.0⟩ ⟨5e-324, 1e-7⟩) (by decide +kernel)
    let spot := ofAccepted (.circle ⟨0.0, 9e-8⟩ 1e-20) (by decide +kernel)
    low.contains ⟨0.0, 9e-8⟩ = true ∧ spot.intersects low = false ∧
      low.intersects spot = false := by
  intro low spot
  have hfar : ∀ e ∈ low.shape.segments, ¬ e.closest ⟨0.0, 9e-8⟩ ≤ 1e-20 := by
    rw [show low.shape.segments = _ from Shape.segments_rectangle (by decide +kernel)]
    refine List.forall_mem_cons.2 ⟨?south, List.forall_mem_cons.2 ⟨?east,
      List.forall_mem_cons.2 ⟨?north, List.forall_mem_singleton.2 ?west⟩⟩⟩
    all_goals decide +kernel
  have hmissed : ¬ low.shape.distanceFrom ⟨0.0, 9e-8⟩ ≤ 1e-20 :=
    Shape.not_distanceFrom_le (by decide +kernel) (by decide +kernel) hfar
  obtain ⟨hmeets, hmeets'⟩ := Shape.meets_circle (s := low.shape) rfl ⟨0.0, 9e-8⟩ 1e-20
  rw [decide_eq_false hmissed] at hmeets hmeets'
  refine ⟨by decide +kernel, ?_, ?_⟩
  · exact (congrArg _ hmeets).trans (Bool.and_false _)
  · exact (congrArg _ hmeets').trans (Bool.and_false _)

end Geofence

end Geocast
