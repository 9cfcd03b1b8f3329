import Geocast.Location

/-!
# Bounding boxes

A box is a range of latitudes and a range of longitudes, ends included. Nothing wraps around the
antimeridian.
-/
namespace Geocast

/-- An axis-parallel box in degrees, ends included. -/
structure BoundingBox where
  minLat : Float
  maxLat : Float
  minLon : Float
  maxLon : Float
  deriving DecidableEq

namespace BoundingBox

def southWest (b : BoundingBox) : Location := ⟨b.minLat, b.minLon⟩

def northEast (b : BoundingBox) : Location := ⟨b.maxLat, b.maxLon⟩

/-- Whether a location lies in the box or on its border. -/
def contains (b : BoundingBox) (p : Location) : Bool :=
  b.minLat ≤ p.lat && p.lat ≤ b.maxLat && b.minLon ≤ p.lon && p.lon ≤ b.maxLon

theorem contains_iff {b : BoundingBox} {p : Location} : b.contains p = true ↔
    (b.minLat ≤ p.lat ∧ p.lat ≤ b.maxLat) ∧ b.minLon ≤ p.lon ∧ p.lon ≤ b.maxLon := by
  simp only [contains, Bool.and_eq_true, decide_eq_true_eq, and_assoc]

def intersects (a b : BoundingBox) : Bool :=
  a.minLat ≤ b.maxLat && b.minLat ≤ a.maxLat && a.minLon ≤ b.maxLon && b.minLon ≤ a.maxLon

/-- Whether the second box lies in the first. -/
def covers (a b : BoundingBox) : Bool :=
  a.minLat ≤ b.minLat && b.maxLat ≤ a.maxLat && a.minLon ≤ b.minLon && b.maxLon ≤ a.maxLon

/-- The box that contains no location; adding a location on the globe to it gives that location. -/
def empty : BoundingBox := ⟨90.0, -90.0, 180.0, -180.0⟩

/-- The least box that contains the box and the location. -/
def insert (b : BoundingBox) (p : Location) : BoundingBox :=
  ⟨Binary64.min b.minLat p.lat, Binary64.max b.maxLat p.lat,
    Binary64.min b.minLon p.lon, Binary64.max b.maxLon p.lon⟩

/-- The least box that contains all of the locations. -/
def ofPoints (points : List Location) : BoundingBox := points.foldl insert empty

end BoundingBox

end Geocast
