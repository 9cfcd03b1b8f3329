import Geocast.Geofence.Basic
import Geocast.Proofs.Number.Order

/-!
# Geofences made from descriptions

A geofence is sent as its description, and whoever receives it makes a geofence of that again.
Circles and rectangles come back as they were. A polygon that is made loses a closing repetition of
its first point, once; so a list that was closed twice gives a polygon that is still closed, and of
its description a shorter polygon is made, or none.

* `Shape.isClosed`: the corners still end with the first one.
* `Survives`: the geofence made from a geofence's description is equal to it.
* `ofShape_of_open`, `ofShape_of_closed`: what is made of the description of a geofence.
* `survives_iff`: exactly the geofences that are not closed survive.
* `polygon_survives_iff`: of a list of points that a polygon is made of, whether it survives.
-/
namespace Geocast

/-! ## Equality as numbers -/

theorem Location.beq_self {p : Location} (h : p.isValid = true) : (p == p) = true := by
  simp only [isValid, Bool.and_eq_true] at h
  change (p.lat == p.lat && p.lon == p.lon) = true
  simp [Binary64.beq_self h.1.1.1, Binary64.beq_self h.1.1.2]

theorem Location.beq_self_of_all {ps : List Location} (h : ps.all isValid = true) :
    (ps == ps) = true := by
  induction ps with
  | nil => rfl
  | cons p ps ih =>
    simp only [List.all_cons, Bool.and_eq_true] at h
    simp [Location.beq_self h.1, ih h.2]

namespace Shape

/-- An accepted description has only numbers in it, so it equals itself. -/
theorem beq_self {s : Shape} (h : s.Accepted = true) : (s == s) = true := by
  cases s with
  | circle center radius =>
    simp only [Accepted, acceptsRadius, Bool.and_eq_true] at h
    change (center == center && radius == radius) = true
    simp [Location.beq_self h.1, Binary64.beq_self h.2.1.1]
  | rectangle sw ne =>
    simp only [Accepted, Bool.and_eq_true] at h
    change (sw == sw && ne == ne) = true
    simp [Location.beq_self h.1.1.1, Location.beq_self h.1.1.2]
  | polygon points =>
    simp only [Accepted, Bool.and_eq_true] at h
    exact Location.beq_self_of_all h.1

/-- The corners of a polygon still end with a repetition of the first. -/
def isClosed : Shape → Bool
  | polygon points => 1 < points.length && points.head? == points.getLast?
  | _ => false

end Shape

namespace Geofence

/-- The geofence that is made from the description of a geofence is equal to it. -/
def Survives (g : Geofence) : Prop := ∃ made, ofShape g.shape = .ok made ∧ (made == g) = true

/-! ## What is made of a description -/

theorem polygon_of_all {points : List Location} (h : points.all Location.isValid = true) :
    polygon points =
      if h : (Shape.polygon (dropClosing points)).Accepted = true then .ok (ofAccepted _ h)
      else .error (.tooFewPoints (Shape.countRuns (dropClosing points))) := by
  have hnone : points.find? (!·.isValid) = none := by
    rw [List.find?_eq_none]
    intro p hp
    simp [List.all_eq_true.1 h p hp]
  rw [polygon, hnone]

theorem dropClosing_of_open {points : List Location}
    (h : (Shape.polygon points).isClosed = false) : dropClosing points = points := by
  rw [dropClosing, if_neg]
  change ¬ (Shape.polygon points).isClosed = true
  simp [h]

theorem dropClosing_of_closed {points : List Location}
    (h : (Shape.polygon points).isClosed = true) : dropClosing points = points.dropLast := by
  rw [dropClosing, if_pos]
  exact h

theorem ofShape_of_open {g : Geofence} (h : g.shape.isClosed = false) :
    ofShape g.shape = .ok g := by
  obtain ⟨shape, haccepted, box, rfl⟩ := g
  cases shape with
  | circle center radius => exact dif_pos haccepted
  | rectangle sw ne => exact dif_pos haccepted
  | polygon points =>
    have hall : points.all Location.isValid = true := by
      simp only [Shape.Accepted, Bool.and_eq_true] at haccepted
      exact haccepted.1
    change polygon points = _
    rw [polygon_of_all hall]
    simp only [dropClosing_of_open h]
    exact dif_pos haccepted

/-- Of the description of a closed polygon a polygon with one corner less is made, if enough
different corners are left. -/
theorem ofShape_of_closed {g : Geofence} (h : g.shape.isClosed = true) :
    ∃ points, g.shape = .polygon points ∧ points ≠ [] ∧ ofShape g.shape =
      if h : (Shape.polygon points.dropLast).Accepted = true then .ok (ofAccepted _ h)
      else .error (.tooFewPoints (Shape.countRuns points.dropLast)) := by
  obtain ⟨shape, haccepted, box, rfl⟩ := g
  cases shape with
  | circle center radius => cases h
  | rectangle sw ne => cases h
  | polygon points =>
    have hall : points.all Location.isValid = true := by
      simp only [Shape.Accepted, Bool.and_eq_true] at haccepted
      exact haccepted.1
    refine ⟨points, rfl, ?_, ?_⟩
    · rintro rfl
      cases h
    · change polygon points = _
      rw [polygon_of_all hall]
      simp only [dropClosing_of_closed h]

/-! ## Which geofences survive -/

theorem beq_self (g : Geofence) : (g == g) = true := Shape.beq_self g.accepted

theorem beq_dropLast {points : List Location} (h : points ≠ []) :
    (Shape.polygon points.dropLast == Shape.polygon points) = false := by
  change (points.dropLast == points) = false
  rw [Bool.eq_false_iff]
  intro heq
  have hlength := List.length_eq_of_beq heq
  have hpos := List.length_pos_iff.2 h
  rw [List.length_dropLast] at hlength
  omega

theorem open_of_survives {g : Geofence} (h : g.Survives) : g.shape.isClosed = false := by
  obtain ⟨made, hmade, hequal⟩ := h
  by_contra hclosed
  obtain ⟨points, hshape, hne, hof⟩ := ofShape_of_closed (Bool.eq_true_of_not_eq_false hclosed)
  rw [hmade] at hof
  split at hof
  · obtain rfl := Except.ok.inj hof
    have hdiffer := beq_dropLast hne
    rw [← hshape] at hdiffer
    exact Bool.false_ne_true (hdiffer.symm.trans hequal)
  · cases hof

theorem survives_of_open {g : Geofence} (h : g.shape.isClosed = false) : g.Survives :=
  ⟨g, ofShape_of_open h, beq_self g⟩

theorem ofShape_of_survives {g : Geofence} (h : g.Survives) : ofShape g.shape = .ok g :=
  ofShape_of_open (open_of_survives h)

/-- Exactly the geofences that are not closed survive. -/
theorem survives_iff (g : Geofence) : g.Survives ↔ g.shape.isClosed = false :=
  ⟨open_of_survives, survives_of_open⟩

/-- From a list that is closed twice a geofence is made, and none from its description. -/
theorem twice_closed_refused :
    ∃ g, polygon [⟨0.0, 0.0⟩, ⟨0.0, 1.0⟩, ⟨0.0, 0.0⟩, ⟨0.0, 0.0⟩] = .ok g ∧
      ofShape g.shape = .error (.tooFewPoints 2) ∧ ¬ g.Survives := by
  have haccepted : (Shape.polygon [⟨0.0, 0.0⟩, ⟨0.0, 1.0⟩, ⟨0.0, 0.0⟩]).Accepted = true := by
    decide +kernel
  have hclosed : (Shape.polygon [⟨0.0, 0.0⟩, ⟨0.0, 1.0⟩, ⟨0.0, 0.0⟩]).isClosed = true := by
    decide +kernel
  refine ⟨ofAccepted _ haccepted, rfl, rfl, fun hsurvives => ?_⟩
  exact Bool.false_ne_true ((open_of_survives hsurvives).symm.trans hclosed)

/-! ## The ways to make a geofence -/

theorem survives_of_circle {center : Location} {radius : Float} {g : Geofence}
    (h : circle center radius = .ok g) : g.Survives := by
  unfold circle at h
  split at h
  · cases h
    exact survives_of_open rfl
  · split at h <;> cases h

theorem survives_of_rectangle {southWest northEast : Location} {g : Geofence}
    (h : rectangle southWest northEast = .ok g) : g.Survives := by
  unfold rectangle at h
  split at h
  · cases h
    exact survives_of_open rfl
  · split at h
    · cases h
    · split at h <;> cases h

theorem survives_world : world.Survives := survives_of_open rfl

theorem of_polygon {points : List Location} {g : Geofence} (h : polygon points = .ok g) :
    (∀ p ∈ points, p.isValid = true) ∧ g.shape = .polygon (dropClosing points) := by
  unfold polygon at h
  split at h
  · cases h
  next hnone =>
    rw [List.find?_eq_none] at hnone
    refine ⟨fun p hp => by simpa using hnone p hp, ?_⟩
    dsimp only at h
    split at h
    · cases h
      rfl
    · cases h

/-- A polygon survives unless its points were closed more than once. -/
theorem polygon_survives_iff {points : List Location} {g : Geofence}
    (h : polygon points = .ok g) :
    g.Survives ↔ (Shape.polygon (dropClosing points)).isClosed = false := by
  rw [← (of_polygon h).2]
  exact ⟨open_of_survives, survives_of_open⟩

end Geofence

end Geocast
