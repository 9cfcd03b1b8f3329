import Geocast.Proofs.Geofence.Retraced
import Mathlib.Data.List.Destutter

/-!
# How many different corners a polygon has

Points of a polygon are counted with repetitions of the point before left out. So what is counted
are the stops of a walk through the points, not the places that it visits, and a walk to and fro
between two places has as many stops as one likes.

* `HasThree`: three of the locations are pairwise different.
* `ToAndFro`: a walk between two places that comes back to the first.
* `countRuns_eq_length_destutter`, `three_le_countRuns_iff`: the count is that of stops.
* `three_stops_iff`: three stops mean three places or a walk to and fro.
* `hasThree_iff_not_toAndFro`: what is accepted and refused.
-/
namespace Geocast
open Binary64

/-! ## Different locations -/

namespace Location

/-- Three of the locations are pairwise different, as numbers. -/
def HasThree (points : List Location) : Prop :=
  ∃ p ∈ points, ∃ q ∈ points, ∃ r ∈ points, (p == q) = false ∧ (q == r) = false ∧ (p == r) = false

/-- The locations go from a place to another one and come back, and are nowhere else. -/
def ToAndFro (points : List Location) : Prop :=
  ∃ p q r, [p, q, r].Sublist points ∧ (p == q) = false ∧ (p == r) = true ∧
    ∀ x ∈ points, (x == p) = true ∨ (x == q) = true

theorem beq_iff_toPlane_eq {p q : Location} (hp : p.isValid = true) (hq : q.isValid = true) :
    (p == q) = true ↔ p.toPlane = q.toPlane := by
  refine ⟨toPlane_eq_of_beq hp hq, fun h => ?_⟩
  change (p.lat == q.lat && p.lon == q.lon) = true
  have hlon : units p.lon = units q.lon := congrArg Plane.Point.x h
  have hlat : units p.lat = units q.lat := congrArg Plane.Point.y h
  rw [Bool.and_eq_true, beq_iff, beq_iff, extent_eq_units (isFinite_lat hp),
    extent_eq_units (isFinite_lat hq), extent_eq_units (isFinite_lon hp),
    extent_eq_units (isFinite_lon hq)]
  exact ⟨⟨isNaN_of_isFinite (isFinite_lat hp), isNaN_of_isFinite (isFinite_lat hq), hlat⟩,
    isNaN_of_isFinite (isFinite_lon hp), isNaN_of_isFinite (isFinite_lon hq), hlon⟩

theorem beq_eq_false_iff {p q : Location} (hp : p.isValid = true) (hq : q.isValid = true) :
    (p == q) = false ↔ p.toPlane ≠ q.toPlane := by
  rw [← Bool.not_eq_true, beq_iff_toPlane_eq hp hq]

variable {points : List Location}

theorem hasThree_iff (hvalid : ∀ p ∈ points, p.isValid = true) :
    HasThree points ↔ ∃ x ∈ points.map toPlane, ∃ y ∈ points.map toPlane,
      ∃ z ∈ points.map toPlane, x ≠ y ∧ y ≠ z ∧ x ≠ z := by
  simp only [List.mem_map, exists_exists_and_eq_and]
  constructor
  · rintro ⟨p, hp, q, hq, r, hr, hpq, hqr, hpr⟩
    exact ⟨p, hp, q, hq, r, hr, (beq_eq_false_iff (hvalid p hp) (hvalid q hq)).1 hpq,
      (beq_eq_false_iff (hvalid q hq) (hvalid r hr)).1 hqr,
      (beq_eq_false_iff (hvalid p hp) (hvalid r hr)).1 hpr⟩
  · rintro ⟨p, hp, q, hq, r, hr, hpq, hqr, hpr⟩
    exact ⟨p, hp, q, hq, r, hr, (beq_eq_false_iff (hvalid p hp) (hvalid q hq)).2 hpq,
      (beq_eq_false_iff (hvalid q hq) (hvalid r hr)).2 hqr,
      (beq_eq_false_iff (hvalid p hp) (hvalid r hr)).2 hpr⟩

end Location

/-! ## Stops of a walk -/

namespace Shape
open Location

variable {points : List Location}

/-- The points that are counted are those at which a walk through all of them stops. -/
theorem countRuns_eq_length_destutter (hvalid : ∀ p ∈ points, p.isValid = true) :
    countRuns points = ((points.map toPlane).destutter (· ≠ ·)).length := by
  induction points using countRuns.induct with
  | case1 => rfl
  | case2 p => rfl
  | case3 p q rest hequal ih =>
    have hpoint := toPlane_eq_of_beq (hvalid p (by simp)) (hvalid q (by simp)) hequal
    rw [countRuns, if_pos hequal, ih fun x hx => hvalid x (List.mem_cons_of_mem p hx),
      List.map_cons, List.map_cons, List.map_cons, List.destutter_cons_cons,
      if_neg (not_not_intro hpoint), hpoint, List.destutter_cons']
  | case4 p q rest hdiffer ih =>
    have hpoint := (beq_eq_false_iff (hvalid p (by simp)) (hvalid q (by simp))).1
      (Bool.eq_false_iff.2 hdiffer)
    rw [countRuns, if_neg hdiffer, ih fun x hx => hvalid x (List.mem_cons_of_mem p hx),
      List.map_cons, List.map_cons, List.map_cons, List.destutter_cons_cons, if_pos hpoint,
      List.destutter_cons', List.length_cons]

/-- At least three are counted when a point is followed, at some time, by a different one, and that
by one that differs from it. -/
theorem three_le_countRuns_iff (hvalid : ∀ p ∈ points, p.isValid = true) :
    3 ≤ countRuns points ↔ ∃ p q r, [p, q, r].Sublist points ∧ p.toPlane ≠ q.toPlane ∧
      q.toPlane ≠ r.toPlane := by
  rw [countRuns_eq_length_destutter hvalid]
  constructor
  · intro hcount
    have hsub := List.destutter_sublist (· ≠ ·) (points.map toPlane)
    have hchain := List.isChain_destutter (· ≠ ·) (points.map toPlane)
    match hstops : (points.map toPlane).destutter (· ≠ ·) with
    | [] | [_] | [_, _] => simp [hstops] at hcount
    | x :: y :: z :: later =>
      rw [hstops] at hsub hchain
      have hthree : [x, y, z].Sublist (points.map toPlane) :=
        (List.prefix_append [x, y, z] later).sublist.trans hsub
      obtain ⟨walk, hwalk, heq⟩ := List.sublist_map_iff.1 hthree
      match walk, heq with
      | [p, q, r], heq =>
        simp only [List.map_cons, List.map_nil, List.cons.injEq, and_true] at heq
        obtain ⟨rfl, rfl, rfl⟩ := heq
        rw [List.isChain_cons_cons, List.isChain_cons_cons] at hchain
        exact ⟨p, q, r, hwalk, hchain.1, hchain.2.1⟩
  · rintro ⟨p, q, r, hwalk, hpq, hqr⟩
    exact List.IsChain.length_le_length_destutter_ne (hwalk.map toPlane)
      (by simp [hpq, hqr])

theorem three_le_countRuns_of_hasThree (hvalid : ∀ p ∈ points, p.isValid = true)
    (h : HasThree points) : 3 ≤ countRuns points := by
  obtain ⟨x, hx, y, hy, z, hz, hxy, hyz, hxz⟩ := (hasThree_iff hvalid).1 h
  have hplaces : [x, y, z].length ≤ (points.map toPlane).dedup.length := by
    refine (List.subperm_of_subset (by simp [hxy, hyz, hxz]) fun v hv => ?_).length_le
    rw [List.mem_dedup]
    simp only [List.mem_cons, List.not_mem_nil, or_false] at hv
    rcases hv with rfl | rfl | rfl <;> assumption
  rw [countRuns_eq_length_destutter hvalid]
  exact hplaces.trans (List.IsChain.length_le_length_destutter_ne (List.dedup_sublist _)
    (List.nodup_dedup _).isChain)

/-- Three stops are at three places, or the walk goes to and fro between two. -/
theorem three_stops_iff (hvalid : ∀ p ∈ points, p.isValid = true) :
    3 ≤ countRuns points ↔ HasThree points ∨ ToAndFro points := by
  constructor
  · rw [three_le_countRuns_iff hvalid]
    rintro ⟨p, q, r, hwalk, hpq, hqr⟩
    have hp : p ∈ points := hwalk.subset (by simp)
    have hq : q ∈ points := hwalk.subset (by simp)
    have hr : r ∈ points := hwalk.subset (by simp)
    by_cases hthree : HasThree points
    · exact .inl hthree
    have htwo : ∀ x ∈ points, x.toPlane = p.toPlane ∨ x.toPlane = q.toPlane := by
      intro x hx
      by_contra! hnew
      exact hthree ((hasThree_iff hvalid).2 ⟨_, List.mem_map_of_mem hp, _, List.mem_map_of_mem hq, _,
        List.mem_map_of_mem hx, hpq, hnew.2.symm, hnew.1.symm⟩)
    have hback : p.toPlane = r.toPlane := ((htwo r hr).resolve_right hqr.symm).symm
    refine .inr ⟨p, q, r, hwalk, (beq_eq_false_iff (hvalid p hp) (hvalid q hq)).2 hpq,
      (beq_iff_toPlane_eq (hvalid p hp) (hvalid r hr)).2 hback, fun x hx => ?_⟩
    rw [beq_iff_toPlane_eq (hvalid x hx) (hvalid p hp),
      beq_iff_toPlane_eq (hvalid x hx) (hvalid q hq)]
    exact htwo x hx
  · rintro (hthree | ⟨p, q, r, hwalk, hpq, hback, -⟩)
    · exact three_le_countRuns_of_hasThree hvalid hthree
    · have hp := hvalid p (hwalk.subset (by simp))
      have hq := hvalid q (hwalk.subset (by simp))
      have hr := hvalid r (hwalk.subset (by simp))
      rw [beq_eq_false_iff hp hq] at hpq
      rw [beq_iff_toPlane_eq hp hr] at hback
      exact (three_le_countRuns_iff hvalid).2 ⟨p, q, r, hwalk, hpq, hback ▸ hpq.symm⟩

theorem not_hasThree_of_toAndFro (hvalid : ∀ p ∈ points, p.isValid = true)
    (h : ToAndFro points) : ¬ HasThree points := by
  obtain ⟨p, q, r, hwalk, -, -, htwo⟩ := h
  have hp := hvalid p (hwalk.subset (by simp))
  have hq := hvalid q (hwalk.subset (by simp))
  have hplace : ∀ z ∈ points.map toPlane, z = p.toPlane ∨ z = q.toPlane := by
    intro z hz
    obtain ⟨x, hx, rfl⟩ := List.mem_map.1 hz
    rw [← beq_iff_toPlane_eq (hvalid x hx) hp, ← beq_iff_toPlane_eq (hvalid x hx) hq]
    exact htwo x hx
  rw [hasThree_iff hvalid]
  rintro ⟨x, hx, y, hy, z, hz, hxy, hyz, hxz⟩
  rcases hplace x hx with rfl | rfl <;> rcases hplace y hy with rfl | rfl <;>
    rcases hplace z hz with rfl | rfl <;> contradiction

end Shape

/-! ## Polygons -/

namespace Geofence
open Location

variable {points : List Location}

/-- What is left of a list that loses its closing repetition is on the globe if the list is. -/
theorem isValid_dropClosing (hvalid : ∀ p ∈ points, p.isValid = true) :
    ∀ p ∈ dropClosing points, p.isValid = true := by
  unfold dropClosing
  split
  · exact fun p hp => hvalid p (List.mem_of_mem_dropLast hp)
  · exact hvalid

theorem hasThree_dropClosing (hvalid : ∀ p ∈ points, p.isValid = true) :
    HasThree (dropClosing points) ↔ HasThree points := by
  rw [hasThree_iff hvalid, hasThree_iff (isValid_dropClosing hvalid)]
  simp only [mem_ring_dropClosing hvalid]

/-- Locations on the globe are refused when there are fewer than three stops, and for no other
reason. -/
theorem polygon_eq_tooFewPoints_iff (hvalid : ∀ p ∈ points, p.isValid = true) :
    (∃ n, polygon points = .error (.tooFewPoints n)) ↔
      ¬ 3 ≤ Shape.countRuns (dropClosing points) := by
  have hall : ∀ {ps : List Location}, (∀ p ∈ ps, p.isValid = true) →
      ps.all Location.isValid = true := fun h => List.all_eq_true.2 h
  have haccepted : (Shape.polygon (dropClosing points)).Accepted = true ↔
      3 ≤ Shape.countRuns (dropClosing points) := by
    simp only [Shape.Accepted, hall (isValid_dropClosing hvalid), Bool.true_and, decide_eq_true_eq]
  rw [polygon_of_all (hall hvalid), ← haccepted]
  split
  next h => simp [h]
  next h => exact ⟨fun _ => h, fun _ => ⟨_, rfl⟩⟩

/-- A polygon has three pairwise different corners, unless its corners go to and fro between two
places. Locations on the globe are refused when they are at fewer than three places and do not go to
and fro between two once a closing repetition is dropped. -/
theorem hasThree_iff_not_toAndFro (points : List Location) :
    (∀ g, polygon points = .ok g →
      (HasThree g.shape.corners ↔ ¬ ToAndFro g.shape.corners)) ∧
    ((∀ p ∈ points, p.isValid = true) →
      ((∃ n, polygon points = .error (.tooFewPoints n)) ↔
        ¬ HasThree points ∧ ¬ ToAndFro (dropClosing points))) := by
  constructor
  · intro g hg
    have hvalid := isValid_dropClosing (of_polygon hg).1
    have haccepted := g.accepted
    rw [(of_polygon hg).2, Shape.Accepted, Bool.and_eq_true, decide_eq_true_eq] at haccepted
    rw [(of_polygon hg).2, Shape.corners]
    refine ⟨fun hthree hwalk => Shape.not_hasThree_of_toAndFro hvalid hwalk hthree, fun hwalk => ?_⟩
    exact ((Shape.three_stops_iff hvalid).1 haccepted.2).resolve_right hwalk
  · intro hvalid
    rw [polygon_eq_tooFewPoints_iff hvalid, Shape.three_stops_iff (isValid_dropClosing hvalid),
      hasThree_dropClosing hvalid, not_or]

/-- A triangle whose last corner is given twice, and two locations, one of them given twice. -/
theorem hasThree_triangle_and_edge :
    let points : List Location := [⟨0.0, 0.0⟩, ⟨0.0, 5.0⟩, ⟨7.0, 0.0⟩, ⟨7.0, 0.0⟩]
    let triangle := ofAccepted (.polygon points) (by decide +kernel)
    let edge : List Location := [⟨0.0, 0.0⟩, ⟨0.0, 5.0⟩, ⟨-0.0, 5.0⟩]
    polygon points = .ok triangle ∧
      (HasThree triangle.shape.corners ↔ ¬ ToAndFro triangle.shape.corners) ∧
      (∀ p ∈ edge, p.isValid = true) ∧
      ((∃ n, polygon edge = .error (.tooFewPoints n)) ↔
        ¬ HasThree edge ∧ ¬ ToAndFro (dropClosing edge)) := by
  intro points triangle edge
  have hpolygon : polygon points = .ok triangle := rfl
  have hvalid : ∀ p ∈ edge, p.isValid = true := by decide +kernel
  exact ⟨hpolygon, (hasThree_iff_not_toAndFro points).1 triangle hpolygon, hvalid,
    (hasThree_iff_not_toAndFro edge).2 hvalid⟩

/-- Of a walk from a place to another, back and there again a polygon is made that has no three
different corners. -/
theorem toAndFro_accepted :
    ∃ g, polygon [⟨0.0, 0.0⟩, ⟨0.0, 1.0⟩, ⟨0.0, 0.0⟩, ⟨0.0, 1.0⟩] = .ok g ∧
      ¬ HasThree g.shape.corners := by
  have haccepted : (Shape.polygon [⟨0.0, 0.0⟩, ⟨0.0, 1.0⟩, ⟨0.0, 0.0⟩, ⟨0.0, 1.0⟩]).Accepted =
      true := by
    decide +kernel
  refine ⟨ofAccepted _ haccepted, rfl, ?_⟩
  change ¬ HasThree [⟨0.0, 0.0⟩, ⟨0.0, 1.0⟩, ⟨0.0, 0.0⟩, ⟨0.0, 1.0⟩]
  unfold HasThree
  decide +kernel

end Geofence

end Geocast
