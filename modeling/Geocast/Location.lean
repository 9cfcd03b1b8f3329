import Geocast.Number.Decimal
import Geocast.Number.Trigonometry

/-!
# Locations on the globe

A location is a latitude and a longitude in degrees. Distances are great-circle distances by the
haversine formula, as an angle in degrees or in kilometres.
-/
namespace Geocast

/-- A latitude and a longitude in degrees; not necessarily a place on the globe. -/
structure Location where
  lat : Float
  lon : Float
  deriving DecidableEq

namespace Location

/-- Equality of coordinates as numbers: `0` equals `-0`, and NaN equals nothing. -/
instance : BEq Location := ⟨fun a b => a.lat == b.lat && a.lon == b.lon⟩

/-- A location lies on the globe when its coordinates are finite and within a quarter turn north
and south and half a turn east and west. -/
def isValid (p : Location) : Bool :=
  p.lat.isFinite && p.lon.isFinite &&
    (-90.0 ≤ p.lat && p.lat ≤ 90.0) && (-180.0 ≤ p.lon && p.lon ≤ 180.0)

/-- The text of a location, `(lat, lon)`. -/
def display (p : Location) : String :=
  "(" ++ Decimal.plain p.lat ++ ", " ++ Decimal.plain p.lon ++ ")"

/-! ## Distance -/

/-- The radius of the globe in kilometres. -/
def earthRadius : Float := 6371.0

/-- One degree in radians. -/
def degree : Float := 0.017453292519943295

/-- One radian in degrees. -/
def radian : Float := 57.29577951308232

def toRadians (x : Float) : Float := x * degree

def toDegrees (x : Float) : Float := x * radian

/-- The square of the sine of half an angle. -/
def haversine (x : Float) : Float :=
  let s := Trigonometry.sin (x / 2.0)
  s * s

end Location

/-- A location from which many distances are measured: the cosine of its latitude is kept. -/
structure Viewpoint where
  place : Location
  cosine : Float

def Location.viewpoint (p : Location) : Viewpoint :=
  ⟨p, Trigonometry.cos (Location.toRadians p.lat)⟩

namespace Viewpoint

open Location (haversine toRadians toDegrees)

/-- The square of half the chord to a location on a globe of radius one. -/
def halfChordSquare (v : Viewpoint) (q : Location) : Float :=
  haversine (toRadians (q.lat - v.place.lat)) +
    v.cosine * Trigonometry.cos (toRadians q.lat) * haversine (toRadians (q.lon - v.place.lon))

/-- The angle in radians to a location, seen from the centre of the globe. -/
def centralAngle (v : Viewpoint) (q : Location) : Float :=
  let a := v.halfChordSquare q
  2.0 * Trigonometry.polarAngle (1.0 - a).sqrt a.sqrt

/-- The great-circle distance to a location as an angle in degrees. -/
def distance (v : Viewpoint) (q : Location) : Float := toDegrees (v.centralAngle q)

end Viewpoint

namespace Location

def distanceKm (p q : Location) : Float := earthRadius * p.viewpoint.centralAngle q

/-- The great-circle distance as an angle in degrees. -/
def distance (p q : Location) : Float := p.viewpoint.distance q

end Location

end Geocast
