import Geocast.Proofs.Geofence.Chord
import Geocast.Proofs.Geofence.Covered

/-!
# Distances up to the antipode

A distance is twice the angle of the point whose coordinates are the roots of what the square of
half the chord leaves of one and of the square itself. The square is rounded, and nothing keeps it
from being rounded above one. Then the first root is no number, neither is the distance, and a
circle of half a turn, which is the whole globe, does not contain the place. That happens next to
antipodes only, and everywhere else the distance is from zero to half a turn.

* `isNaN_distance`, `distance_range`: the distance on either side of one.
* `le_one_of_halfChord`: the square is at most one unless the places are antipodal or nearly so.
* `distance_number_iff`: when a distance is a number, and what it and a circle of half a turn are
  then.
-/
namespace Geocast

namespace Location
open Binary64 Trigonometry

/-- Doubling an angle and turning it into degrees keeps the order, and what is no number. -/
theorem toDegrees_two_mul (x y : Float) : (toDegrees (2.0 * x)).isNaN = x.isNaN ∧
    (x ≤ y → toDegrees (2.0 * x) ≤ toDegrees (2.0 * y)) := by
  obtain ⟨m, e, hm, htwo⟩ : ∃ m e hm, (2.0 : Float).toModel.unpack = .finite .positive m e hm :=
    ⟨_, _, _, rfl⟩
  obtain ⟨n, d, hn, hradian⟩ : ∃ m e hm, radian.toModel.unpack = .finite .positive m e hm :=
    ⟨_, _, _, rfl⟩
  rw [Binary64.mul_comm 2.0 x, Binary64.mul_comm 2.0 y, toDegrees, toDegrees, isNaN_mul hradian,
    isNaN_mul htwo]
  exact ⟨rfl, fun h => mul_le_mul_of_le hradian (mul_le_mul_of_le htwo h)⟩

section Pair
variable {p q : Location} (hp : p.isValid = true) (hq : q.isValid = true)
include hp hq

theorem isNaN_distance (h : 1.0 < p.viewpoint.halfChordSquare q) : (p.distance q).isNaN = true := by
  have hneg := (one_sub_spec (isFinite_halfChordSquare hp hq)).1 h
  have hroot := isNaN_sqrt_of_neg hneg
  rw [distance, Viewpoint.distance, Viewpoint.centralAngle, (toDegrees_two_mul _ 0.0).1, polarAngle,
    hroot, Bool.true_or, if_pos rfl]
  rfl

/-- Otherwise it is from zero to half a turn. -/
theorem distance_range (h : ¬ 1.0 < p.viewpoint.halfChordSquare q) :
    0.0 ≤ p.distance q ∧ p.distance q ≤ 180.0 := by
  have hfinite := isFinite_halfChordSquare hp hq
  have hrest := (one_sub_spec hfinite).2 h
  have hplus := plus_halfChordSquare hp hq
  have hnumber : (1.0 - p.viewpoint.halfChordSquare q).isNaN = false := isNaN_sub rfl hfinite
  obtain ⟨hlow, hhigh⟩ := polarAngle_range (isNaN_sqrt hrest hnumber)
    (isNaN_sqrt hplus (isNaN_of_isFinite hfinite)) hrest.sqrt hplus.sqrt
  have hzero : 0.0 ≤ toDegrees (2.0 * 0.0) := by decide +kernel
  have hhalf : toDegrees (2.0 * toRadians 90.0) ≤ 180.0 := by decide +kernel
  exact ⟨le_trans hzero ((toDegrees_two_mul _ _).2 hlow),
    le_trans ((toDegrees_two_mul _ _).2 hhigh) hhalf⟩

theorem not_one_lt_iff : ¬ 1.0 < p.viewpoint.halfChordSquare q ↔
    p.viewpoint.halfChordSquare q ≤ 1.0 := by
  have hnumber := isNaN_of_isFinite (isFinite_halfChordSquare hp hq)
  refine ⟨fun h => le_of_not_lt rfl hnumber h, fun hle hlt => ?_⟩
  have h := (le_iff.1 hle).2.2
  have h' := (lt_iff.1 hlt).2.2
  omega

theorem isNaN_distance_iff :
    (p.distance q).isNaN = false ↔ p.viewpoint.halfChordSquare q ≤ 1.0 := by
  rw [← not_one_lt_iff hp hq]
  refine ⟨fun hnumber hmore => ?_, fun hless => (le_iff.1 (distance_range hp hq hless).1).2.1⟩
  rw [isNaN_distance hp hq hmore] at hnumber
  cases hnumber

/-- Rounding does not lead past one where the true chord leaves more of the diameter than rounding
can take. -/
theorem le_one_of_halfChord (h : p.halfChord q ≤ 1 - 1 / 2 ^ 46) :
    p.viewpoint.halfChordSquare q ≤ 1.0 := by
  have hnear := (abs_le.1 (halfChordSquare_near hp hq)).2
  refine (not_one_lt_iff hp hq).1 fun hmore => ?_
  have hlt := value_lt hmore
  rw [value_one] at hlt
  linarith

end Pair

end Location

namespace Geofence
open Binary64 Location

/-- A circle of half a turn is accepted around every location of the globe, and its box is the whole
globe. -/
theorem circle_halfTurn {p : Location} (hp : p.isValid = true) :
    ∃ g, circle p 180.0 = .ok g ∧ g.shape = .circle p 180.0 := by
  have haccepted : (Shape.circle p 180.0).Accepted = true := by
    simp only [Shape.Accepted, hp, Bool.true_and]
    decide +kernel
  exact ⟨ofAccepted _ haccepted, dif_pos haccepted, rfl⟩

theorem box_halfTurn {g : Geofence} {p q : Location} (hg : g.shape = .circle p 180.0)
    (hp : p.isValid = true) (hq : q.isValid = true) : g.box.contains q = true := by
  obtain ⟨⟨hps, hpn⟩, -⟩ := isValid_iff.1 hp
  obtain ⟨⟨hqs, hqn⟩, hqw, hqe⟩ := isValid_iff.1 hq
  have hlat := isFinite_lat hp
  have hseam : (180.0 : Float).isFinite = true := rfl
  have hpole : (90.0 : Float).isFinite = true := rfl
  have hpole' : (-90.0 : Float).isFinite = true := rfl
  have hsouth : p.lat - 180.0 ≤ -90.0 := by
    have hless : extent 90.0 - extent 180.0 ≤ extent (-90.0) := by decide +kernel
    have hle := (le_iff.1 hpn).2.2
    rw [le_iff, extent_sub hlat hseam, ← rounded_extent hpole']
    exact ⟨isNaN_sub hlat hseam, rfl, rounded_mono (by omega)⟩
  have hnorth : 90.0 ≤ p.lat + 180.0 := by
    have hless : extent 90.0 ≤ extent (-90.0) + extent 180.0 := by decide +kernel
    have hle := (le_iff.1 hps).2.2
    rw [le_iff, extent_add hlat hseam, ← rounded_extent hpole]
    exact ⟨rfl, isNaN_add hlat hseam, rounded_mono (by omega)⟩
  have hreaches : Shape.reachesPole p 180.0 = true := by
    have habs := (plus_abs p.lat).isNaN_or_le.resolve_left
      (by rw [isNaN_of_isFinite (isFinite_abs hlat)]; exact Bool.false_ne_true)
    have hover := le_add_self hseam habs
    have hstart : (90.0 : Float) ≤ 180.0 := by decide +kernel
    rw [Shape.reachesPole, decide_eq_true_eq, Binary64.add_comm]
    exact le_trans hstart hover
  obtain ⟨hmax, -⟩ := max_spec (le_iff.1 hsouth).1 (isNaN_of_isFinite hpole')
  obtain ⟨hmin, -⟩ := min_spec (le_iff.1 hnorth).2.1 (isNaN_of_isFinite hpole)
  have hlow : Binary64.max (p.lat - 180.0) (-90.0) ≤ q.lat := by
    rcases hmax with h | h <;> rw [h]
    · exact le_trans hsouth hqs
    · exact hqs
  have hhigh : q.lat ≤ Binary64.min (p.lat + 180.0) 90.0 := by
    rcases hmin with h | h <;> rw [h]
    · exact le_trans hqn hnorth
    · exact hqn
  rw [g.box_eq, hg, Shape.box, Shape.circleBox, if_pos hreaches]
  exact BoundingBox.contains_iff.2 ⟨⟨hlow, hhigh⟩, hqw, hqe⟩

theorem contains_halfTurn {g : Geofence} {p q : Location} (hg : g.shape = .circle p 180.0)
    (hp : p.isValid = true) (hq : q.isValid = true) :
    g.contains q = true ↔ p.viewpoint.halfChordSquare q ≤ 1.0 := by
  rw [contains_of_circle hg, and_iff_right (box_halfTurn hg hp hq), ← not_one_lt_iff hp hq]
  refine ⟨fun hle hmore => ?_, fun hless => (distance_range hp hq hless).2⟩
  have := isNaN_distance hp hq hmore
  rw [(le_iff.1 hle).1] at this
  cases this

/-- The distance of two locations of the globe is a number exactly when the square of half the chord
is not rounded above one, and then it is from zero to half a turn; a circle of half a turn around
the one contains the other in the same cases. The square is always off the true one by at most
`2 ^ -46`, so it is above one by no more than that, and only if one location is within about
`2 ^ -22` radii of the globe of the antipode of the other. -/
theorem distance_number_iff {p q : Location} (hp : p.isValid = true) (hq : q.isValid = true) :
    ((p.distance q).isNaN = false ↔ p.viewpoint.halfChordSquare q ≤ 1.0) ∧
      (p.viewpoint.halfChordSquare q ≤ 1.0 → 0.0 ≤ p.distance q ∧ p.distance q ≤ 180.0) ∧
      (∃ g, circle p 180.0 = .ok g ∧
        (g.contains q = true ↔ p.viewpoint.halfChordSquare q ≤ 1.0)) ∧
      (p.halfChord q ≤ 1 ∧ |value (p.viewpoint.halfChordSquare q) - p.halfChord q| ≤ 1 / 2 ^ 46) ∧
      (p.halfChord q ≤ 1 - 1 / 2 ^ 46 → p.viewpoint.halfChordSquare q ≤ 1.0) := by
  obtain ⟨g, haccepted, hg⟩ := circle_halfTurn hp
  exact ⟨isNaN_distance_iff hp hq, fun h => distance_range hp hq ((not_one_lt_iff hp hq).2 h),
    ⟨g, haccepted, contains_halfTurn hg hp hq⟩,
    ⟨halfChord_le_one p q, halfChordSquare_near hp hq⟩,
    le_one_of_halfChord hp hq⟩

/-- From the equator to its antipode on the equator: half a turn. -/
theorem distance_number_across_equator :
    (⟨0.0, 0.0⟩ : Location).isValid = true ∧ (⟨0.0, 180.0⟩ : Location).isValid = true ∧
      ((⟨0.0, 0.0⟩ : Location).distance ⟨0.0, 180.0⟩).isNaN = false ∧
      ∃ g, circle ⟨0.0, 0.0⟩ 180.0 = .ok g ∧ g.contains ⟨0.0, 180.0⟩ = true := by
  have hp : (⟨0.0, 0.0⟩ : Location).isValid = true := by decide +kernel
  have hq : (⟨0.0, 180.0⟩ : Location).isValid = true := by decide +kernel
  have hone : (⟨0.0, 0.0⟩ : Location).viewpoint.halfChordSquare ⟨0.0, 180.0⟩ ≤ 1.0 := by
    decide +kernel
  obtain ⟨hnumber, -, ⟨g, hg, hcontains⟩, -⟩ := distance_number_iff hp hq
  exact ⟨hp, hq, hnumber.2 hone, g, hg, hcontains.2 hone⟩

/-- The antipode of 15.625 degrees north is at no distance from there. -/
theorem antipode_at_no_distance :
    (⟨15.625, 0.0⟩ : Location).isValid = true ∧ (⟨-15.625, 180.0⟩ : Location).isValid = true ∧
      1.0 < (⟨15.625, 0.0⟩ : Location).viewpoint.halfChordSquare ⟨-15.625, 180.0⟩ ∧
      ((⟨15.625, 0.0⟩ : Location).distance ⟨-15.625, 180.0⟩).isNaN = true ∧
      ∃ g, circle ⟨15.625, 0.0⟩ 180.0 = .ok g ∧ g.contains ⟨-15.625, 180.0⟩ = false := by
  have hp : (⟨15.625, 0.0⟩ : Location).isValid = true := by decide +kernel
  have hq : (⟨-15.625, 180.0⟩ : Location).isValid = true := by decide +kernel
  have hmore : 1.0 < (⟨15.625, 0.0⟩ : Location).viewpoint.halfChordSquare ⟨-15.625, 180.0⟩ := by
    decide +kernel
  obtain ⟨g, hg, hshape⟩ := circle_halfTurn hp
  refine ⟨hp, hq, hmore, isNaN_distance hp hq hmore, g, hg, ?_⟩
  rw [← Bool.not_eq_true, contains_halfTurn hshape hp hq, ← not_one_lt_iff hp hq, not_not]
  exact hmore

end Geofence

end Geocast
