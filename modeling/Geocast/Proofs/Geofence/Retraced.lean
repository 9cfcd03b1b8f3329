import Geocast.Proofs.Geofence.Shortcuts
import Geocast.Proofs.Plane.Retraced

/-!
# Start corner and direction of polygons

Boundaries are written from any corner on and in either direction, closed or not. The polygons that
are made of such lists have boxes with equal sides and contain the same locations. What a list loses
when it is closed is a corner that it still has; a list that was turned so that the repetition is
inside loses nothing, and has an edge without length instead.

* `BoundingBox.Agrees`: the sides of two boxes are equal as numbers.
* `dropClosing_cases`: what is lost of a list that is closed.
* `contains_dropClosing`, `frames_dropClosing`: the loss changes neither the region nor the box.
* `polygon_retraced`: polygons of one list, turned and backwards.
-/
namespace Geocast
open Binary64

namespace BoundingBox

/-- The sides of two boxes are equal as numbers. -/
structure Agrees (b c : BoundingBox) : Prop where
  south : (b.minLat == c.minLat) = true
  north : (b.maxLat == c.maxLat) = true
  west : (b.minLon == c.minLon) = true
  east : (b.maxLon == c.maxLon) = true

theorem Agrees.contains_eq {b c : BoundingBox} (h : b.Agrees c) (p : Location) :
    b.contains p = c.contains p := by
  rw [Bool.eq_iff_iff, contains_iff, contains_iff]
  constructor
  · intro ⟨⟨hs, hn⟩, hw, he⟩
    exact ⟨⟨le_trans (ge_of_beq h.south) hs, le_trans hn (le_of_beq h.north)⟩,
      le_trans (ge_of_beq h.west) hw, le_trans he (le_of_beq h.east)⟩
  · intro ⟨⟨hs, hn⟩, hw, he⟩
    exact ⟨⟨le_trans (le_of_beq h.south) hs, le_trans hn (ge_of_beq h.north)⟩,
      le_trans (le_of_beq h.west) hw, le_trans he (ge_of_beq h.east)⟩

/-- Of two boxes that frame the same locations, the first reaches as far as the second. -/
theorem Frames.within {b c : BoundingBox} {points others : List Location} (hb : b.Frames points)
    (hc : c.Frames others) (hsub : ∀ p ∈ others, p ∈ points) :
    (b.minLat ≤ c.minLat ∧ c.maxLat ≤ b.maxLat) ∧ b.minLon ≤ c.minLon ∧ c.maxLon ≤ b.maxLon := by
  have hin := fun p hp => contains_iff.1 (hb.contains p (hsub p hp))
  obtain ⟨p, hp, hsouth⟩ := hc.south
  obtain ⟨q, hq, hnorth⟩ := hc.north
  obtain ⟨r, hr, hwest⟩ := hc.west
  obtain ⟨s, hs, heast⟩ := hc.east
  exact ⟨⟨le_trans (hin p hp).1.1 (le_of_beq hsouth), le_trans (ge_of_beq hnorth) (hin q hq).1.2⟩,
    le_trans (hin r hr).2.1 (le_of_beq hwest), le_trans (ge_of_beq heast) (hin s hs).2.2⟩

theorem Frames.agrees {b c : BoundingBox} {points others : List Location} (hb : b.Frames points)
    (hc : c.Frames others) (hmem : ∀ p, p ∈ points ↔ p ∈ others) : b.Agrees c := by
  obtain ⟨⟨hs, hn⟩, hw, he⟩ := hb.within hc fun p hp => (hmem p).2 hp
  obtain ⟨⟨hs', hn'⟩, hw', he'⟩ := hc.within hb fun p hp => (hmem p).1 hp
  exact ⟨beq_of_le_of_le hs hs', beq_of_le_of_le hn' hn, beq_of_le_of_le hw hw',
    beq_of_le_of_le he' he⟩

end BoundingBox

/-! ## Closed lists -/

theorem Location.toPlane_eq_of_beq {p q : Location} (hp : p.isValid = true) (hq : q.isValid = true)
    (h : (p == q) = true) : p.toPlane = q.toPlane := by
  have h' : (p.lat == q.lat && p.lon == q.lon) = true := h
  rw [Bool.and_eq_true, beq_iff, beq_iff, extent_eq_units (isFinite_lat hp),
    extent_eq_units (isFinite_lat hq), extent_eq_units (isFinite_lon hp),
    extent_eq_units (isFinite_lon hq)] at h'
  exact Plane.Point.ext h'.2.2.2 h'.1.2.2

namespace Geofence

theorem dropClosing_cases (points : List Location) : dropClosing points = points ∨
    ∃ v rest w, points = v :: rest ++ [w] ∧ (v == w) = true ∧ dropClosing points = v :: rest := by
  unfold dropClosing
  split
  next h =>
    rw [Bool.and_eq_true, decide_eq_true_eq] at h
    obtain ⟨hlength, hends⟩ := h
    cases points with
    | nil => cases hlength
    | cons v tail =>
      rcases List.eq_nil_or_concat tail with rfl | ⟨rest, w, rfl⟩
      · simp at hlength
      · rw [List.concat_eq_append] at hends ⊢
        rw [← List.cons_append, List.getLast?_concat] at hends
        refine .inr ⟨v, rest, w, rfl, hends, ?_⟩
        rw [← List.cons_append, List.dropLast_concat]
  · exact .inl rfl

theorem frames_dropClosing {points : List Location} {b : BoundingBox}
    (h : b.Frames (dropClosing points)) : b.Frames points := by
  rcases dropClosing_cases points with heq | ⟨v, rest, w, rfl, hends, heq⟩
  · rwa [heq] at h
  · rw [heq] at h
    have hends' : (v.lat == w.lat && v.lon == w.lon) = true := hends
    rw [Bool.and_eq_true] at hends'
    have hv := BoundingBox.contains_iff.1 (h.contains v List.mem_cons_self)
    have hw : b.contains w = true := BoundingBox.contains_iff.2
      ⟨⟨le_trans hv.1.1 (le_of_beq hends'.1), le_trans (ge_of_beq hends'.1) hv.1.2⟩,
        le_trans hv.2.1 (le_of_beq hends'.2), le_trans (ge_of_beq hends'.2) hv.2.2⟩
    have hkeep : ∀ {P : Location → Prop}, (∃ p ∈ v :: rest, P p) → ∃ p ∈ v :: rest ++ [w], P p :=
      fun ⟨p, hp, hP⟩ => ⟨p, List.mem_append_left _ hp, hP⟩
    refine ⟨fun p hp => ?_, hkeep h.south, hkeep h.north, hkeep h.west, hkeep h.east⟩
    rcases List.mem_append.1 hp with hp | hp
    · exact h.contains p hp
    · rwa [List.mem_singleton.1 hp]

open Plane

/-- A list and what is left of it when it loses its closing repetition have the same region. -/
theorem contains_dropClosing {points : List Location} (hvalid : ∀ p ∈ points, p.isValid = true)
    (q : Point) : Ring.contains ((dropClosing points).map Location.toPlane) q =
      Ring.contains (points.map Location.toPlane) q := by
  rcases dropClosing_cases points with heq | ⟨v, rest, w, rfl, hends, heq⟩
  · rw [heq]
  · have hv : v.isValid = true := hvalid v (by simp)
    have hw : w.isValid = true := hvalid w (by simp)
    rw [heq, List.map_append, List.map_cons, List.map_singleton,
      ← Location.toPlane_eq_of_beq hv hw hends]
    refine (Ring.contains_closed (fun x hx => ?_) q).symm
    rw [← List.map_cons] at hx
    obtain ⟨p, hp, rfl⟩ := List.mem_map.1 hx
    exact Location.onMap_toPlane (hvalid p (List.mem_append_left _ hp))

theorem mem_ring_dropClosing {points : List Location} (hvalid : ∀ p ∈ points, p.isValid = true)
    {x : Point} : x ∈ (dropClosing points).map Location.toPlane ↔
      x ∈ points.map Location.toPlane := by
  rcases dropClosing_cases points with heq | ⟨v, rest, w, rfl, hends, heq⟩
  · rw [heq]
  · have hpoint := Location.toPlane_eq_of_beq (hvalid v (by simp)) (hvalid w (by simp)) hends
    rw [heq, List.map_append, List.mem_append, List.map_singleton, ← hpoint]
    refine ⟨.inl, fun h => h.elim id fun h => ?_⟩
    rw [List.mem_singleton.1 h]
    exact List.mem_cons_self

/-! ## Polygons -/

/-- What a polygon contains, and how its box lies, is told by the list that it is made of. -/
theorem contains_of_made {points : List Location} {g : Geofence} (h : polygon points = .ok g) :
    g.box.Frames points ∧ ∀ p : Location, g.contains p =
      (g.box.contains p && Ring.contains (points.map Location.toPlane) p.toPlane) := by
  obtain ⟨hvalid, hshape⟩ := of_polygon h
  have hframes := frames_box (g := g) (by rw [hshape]; rfl)
  rw [hshape] at hframes
  refine ⟨frames_dropClosing hframes, fun p => ?_⟩
  rw [contains_of_polygon hshape, hshape, Shape.planeContains, ← contains_dropClosing hvalid]
  rfl

/-- Polygons of one list of locations, from whichever of them the list starts, have boxes with equal
sides and contain the same locations; so does a polygon of the list backwards, as far as sides are
told exactly. -/
theorem polygon_retraced {points others : List Location} {g h : Geofence}
    (hg : polygon points = .ok g) (hh : polygon others = .ok h) :
    (List.IsRotated others points →
      g.box.Agrees h.box ∧ ∀ p, g.contains p = h.contains p) ∧
    (List.IsRotated others points.reverse →
      g.box.Agrees h.box ∧
        ∀ p : Location, Exact (p.toPlane :: g.shape.ring) → g.contains p = h.contains p) := by
  obtain ⟨hgframes, hgcontains⟩ := contains_of_made hg
  obtain ⟨hhframes, hhcontains⟩ := contains_of_made hh
  obtain ⟨hvalid, hshape⟩ := of_polygon hg
  refine ⟨fun hturned => ?_, fun hturned => ?_⟩
  · have hbox := hgframes.agrees hhframes fun p => hturned.mem_iff.symm
    refine ⟨hbox, fun p => ?_⟩
    rw [hgcontains, hhcontains, hbox.contains_eq,
      Ring.contains_of_isRotated (hturned.map Location.toPlane)]
  · have hbox := hgframes.agrees hhframes fun p => by rw [hturned.mem_iff, List.mem_reverse]
    refine ⟨hbox, fun p hexact => ?_⟩
    have hexact' : Exact (p.toPlane :: points.map Location.toPlane) := hexact.mono fun x hx => by
      rw [hshape]
      rw [List.mem_cons] at hx ⊢
      exact hx.imp_right (mem_ring_dropClosing hvalid).2
    have hring := Ring.contains_of_isRotated (hturned.map Location.toPlane) p.toPlane
    rw [List.map_reverse, Ring.contains_reverse hexact'] at hring
    rw [hgcontains, hhcontains, hbox.contains_eq, hring]

/-- A triangle that is closed, the same list from its second corner on, which loses nothing, and
from there backwards. -/
theorem polygon_retraced_triangle :
    let points : List Location := [⟨0.0, 0.0⟩, ⟨0.0, 12.0⟩, ⟨8.0, 0.0⟩, ⟨0.0, 0.0⟩]
    let triangle := ofAccepted (.polygon [⟨0.0, 0.0⟩, ⟨0.0, 12.0⟩, ⟨8.0, 0.0⟩]) (by decide +kernel)
    let turned := ofAccepted (.polygon (points.rotate 1)) (by decide +kernel)
    let backwards := ofAccepted (.polygon (points.reverse.rotate 1)) (by decide +kernel)
    let p : Location := ⟨2.0, 3.0⟩
    polygon points = .ok triangle ∧ polygon (points.rotate 1) = .ok turned ∧
      polygon (points.reverse.rotate 1) = .ok backwards ∧ triangle.contains p = true ∧
      (triangle.box.Agrees turned.box ∧ triangle.contains p = turned.contains p) ∧
      triangle.box.Agrees backwards.box ∧ triangle.contains p = backwards.contains p := by
  intro points triangle turned backwards p
  have htriangle : polygon points = .ok triangle := rfl
  have hturned : polygon (points.rotate 1) = .ok turned := rfl
  have hbackwards : polygon (points.reverse.rotate 1) = .ok backwards := rfl
  have hexact : Exact (p.toPlane :: triangle.shape.ring) := exact_of_isPlain (by decide +kernel)
  obtain ⟨hbox, hcontains⟩ := (polygon_retraced htriangle hturned).1 (.forall points 1)
  obtain ⟨hbox', hcontains'⟩ :=
    (polygon_retraced htriangle hbackwards).2 (.forall points.reverse 1)
  exact ⟨htriangle, hturned, hbackwards, by decide +kernel, ⟨hbox, hcontains p⟩, hbox',
    hcontains' p hexact⟩

end Geofence

end Geocast
