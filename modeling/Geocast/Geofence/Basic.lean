import Geocast.BoundingBox
import Geocast.Plane.Ring

/-!
# Geofences

A geofence is a circle on the globe, or a rectangle or polygon in the plane of longitude and
latitude. `Shape` is its description; `Geofence` is a description that was accepted, together with
its bounding box.

The constructors are `circle`, `rectangle`, `polygon` and `ofShape`. What they accept is
`Shape.Accepted`, and each refusal is a cause of `GeofenceError`. A polygon loses a closing
repetition of its first point, once; then at least three points must remain when repetitions of
the point before are left out.
-/
namespace Geocast

inductive GeofenceError where
  | invalidLocation (lat lon : Float)
  | invalidRadius (radius : Float)
  | invalidRectangle
  | tooFewPoints (count : Nat)
  | wellKnownText (reason : String)
  | unsupportedGeometry (shown : String)

def GeofenceError.message : GeofenceError → String
  | .invalidLocation lat lon =>
    "invalid location, lat: " ++ Decimal.plain lat ++ ", lon: " ++ Decimal.plain lon
  | .invalidRadius radius =>
    "invalid circle radius " ++ Decimal.plain radius ++ ", expected (0, 180] degrees"
  | .invalidRectangle =>
    "invalid rectangle, south west corner must lie below and left of north east corner"
  | .tooFewPoints count =>
    "a polygon needs at least 3 distinct points, got " ++ Decimal.digitsText count
  | .wellKnownText reason => "wkt parse error, " ++ reason
  | .unsupportedGeometry shown =>
    "unsupported geometry `" ++ shown ++ "`, only POLYGON is supported"

/-- The refusal of a location that is not on the globe. -/
def GeofenceError.ofLocation (p : Location) : GeofenceError := .invalidLocation p.lat p.lon

/-- The location with the given coordinates, refused when it is not on the globe. -/
def Location.ofDegrees (lat lon : Float) : Except GeofenceError Location :=
  let p : Location := ⟨lat, lon⟩
  if p.isValid then .ok p else .error (.ofLocation p)

/-- The description of a geofence. The radius of a circle is a great-circle distance in degrees. -/
inductive Shape where
  | circle (center : Location) (radius : Float)
  | rectangle (southWest northEast : Location)
  | polygon (points : List Location)
  deriving DecidableEq

namespace Shape

/-- Equality of coordinates and radii as numbers. -/
instance : BEq Shape where
  beq
    | circle c r, circle d s => c == d && r == s
    | rectangle a b, rectangle c d => a == c && b == d
    | polygon ps, polygon qs => ps == qs
    | _, _ => false

/-- The number of points when repetitions of the point before are left out. -/
def countRuns : List Location → Nat
  | [] => 0
  | [_] => 1
  | p :: q :: rest => if p == q then countRuns (q :: rest) else countRuns (q :: rest) + 1

/-- What a circle's centre and radius must satisfy. -/
def acceptsRadius (radius : Float) : Bool := radius.isFinite && 0.0 < radius && radius ≤ 180.0

/-- The descriptions that are geofences. -/
def Accepted : Shape → Bool
  | circle center radius => center.isValid && acceptsRadius radius
  | rectangle sw ne => sw.isValid && ne.isValid && sw.lat ≤ ne.lat && sw.lon ≤ ne.lon
  | polygon points => points.all Location.isValid && 3 ≤ countRuns points

/-! ## Bounding boxes -/

/-- Half the range of longitudes of a circle that contains no pole. -/
def halfWidth (center : Location) (radius : Float) : Float :=
  Location.toDegrees <| Trigonometry.arcsin <|
    Trigonometry.sin (Location.toRadians radius) / Trigonometry.cos (Location.toRadians center.lat)

def reachesPole (center : Location) (radius : Float) : Bool := 90.0 ≤ center.lat.abs + radius

/-- The box of a circle: cut at the poles and at the antimeridian, and as wide as the globe when a
pole lies inside. -/
def circleBox (center : Location) (radius : Float) : BoundingBox :=
  let minLat := Binary64.max (center.lat - radius) (-90.0)
  let maxLat := Binary64.min (center.lat + radius) 90.0
  if reachesPole center radius then ⟨minLat, maxLat, -180.0, 180.0⟩
  else
    let d := halfWidth center radius
    ⟨minLat, maxLat, Binary64.max (center.lon - d) (-180.0), Binary64.min (center.lon + d) 180.0⟩

/-- The least box around a described region, cut to the globe. -/
def box : Shape → BoundingBox
  | circle center radius => circleBox center radius
  | rectangle sw ne => ⟨sw.lat, ne.lat, sw.lon, ne.lon⟩
  | polygon points => BoundingBox.ofPoints points

/-! ## Outlines -/

/-- The corners of a rectangle or polygon in order; a circle has none. -/
def corners : Shape → List Location
  | circle _ _ => []
  | rectangle sw ne => [sw, ⟨sw.lat, ne.lon⟩, ne, ⟨ne.lat, sw.lon⟩]
  | polygon points => points

end Shape

/-- The point of the plane of a location: longitude to the right, latitude upwards, both in units of
the least positive double, so that nothing is rounded. -/
def Location.toPlane (p : Location) : Plane.Point := ⟨Binary64.units p.lon, Binary64.units p.lat⟩

def Shape.ring (s : Shape) : Plane.Ring := s.corners.map Location.toPlane

/-- An accepted description, with its bounding box. -/
structure Geofence where
  shape : Shape
  accepted : shape.Accepted = true
  box : BoundingBox
  box_eq : box = shape.box

namespace Geofence

/-- Geofences with one description are the same geofence. -/
@[ext] theorem ext {g h : Geofence} (hs : g.shape = h.shape) : g = h := by
  cases g with | mk s a b e =>
  cases h with | mk s' a' b' e' =>
  cases hs; cases e; cases e'; rfl

/-- Equality of coordinates and radii as numbers; a rectangle never equals a polygon. -/
instance : BEq Geofence := ⟨fun g h => g.shape == h.shape⟩

/-- The geofence of an accepted description. -/
def ofAccepted (shape : Shape) (h : shape.Accepted = true) : Geofence := ⟨shape, h, shape.box, rfl⟩

/-! ## Constructors -/

def circle (center : Location) (radius : Float) : Except GeofenceError Geofence :=
  if h : (Shape.circle center radius).Accepted = true then .ok (ofAccepted _ h)
  else if !center.isValid then .error (.ofLocation center)
  else .error (.invalidRadius radius)

def rectangle (southWest northEast : Location) : Except GeofenceError Geofence :=
  if h : (Shape.rectangle southWest northEast).Accepted = true then .ok (ofAccepted _ h)
  else if !southWest.isValid then .error (.ofLocation southWest)
  else if !northEast.isValid then .error (.ofLocation northEast)
  else .error .invalidRectangle

/-- The points without a last one that repeats the first. -/
def dropClosing (points : List Location) : List Location :=
  if 1 < points.length && points.head? == points.getLast? then points.dropLast else points

/-- The polygon with the given corners, which may be closed by repeating the first. -/
def polygon (points : List Location) : Except GeofenceError Geofence :=
  match points.find? (!·.isValid) with
  | some p => .error (.ofLocation p)
  | none =>
    let opened := dropClosing points
    if h : (Shape.polygon opened).Accepted = true then .ok (ofAccepted _ h)
    else .error (.tooFewPoints (Shape.countRuns opened))

def ofShape : Shape → Except GeofenceError Geofence
  | .circle center radius => circle center radius
  | .rectangle southWest northEast => rectangle southWest northEast
  | .polygon points => polygon points

def world : Geofence := ofAccepted (.rectangle ⟨-90.0, -180.0⟩ ⟨90.0, 180.0⟩) (by decide +kernel)

/-! ## Text -/

def displayPoints (points : List Location) : String :=
  ", ".intercalate (points.map Location.display)

/-- The text of a geofence: its kind, then its data in braces. -/
def display (g : Geofence) : String :=
  match g.shape with
  | .circle center radius =>
    "circle\x7b" ++ center.display ++ ", r=" ++ Decimal.plain radius ++ "\x7d"
  | .rectangle southWest northEast =>
    "rectangle\x7b" ++ southWest.display ++ ", " ++ northEast.display ++ "\x7d"
  | .polygon points => "polygon\x7b" ++ displayPoints points ++ "\x7d"

end Geofence

end Geocast
