import Geocast.Geofence.Relations
import Geocast.Packet.Basic
import Geocast.Text.Quoted

/-!
# Packets in full

The text of a packet with every field, as the log shows a packet that could not be sent. A record is
its name and its fields in braces, a list stands in brackets, a text in quotes, and a double always
has a point or an exponent.
-/
namespace Geocast.Inspect

/-! ## Forms -/

/-- A record: its name, then its fields. -/
def record (name : String) (fields : List (String × String)) : String :=
  name ++ " \x7b " ++ ", ".intercalate (fields.map fun (key, value) => key ++ ": " ++ value) ++
    " \x7d"

/-- A name with one value. -/
def wrapped (name value : String) : String := name ++ "(" ++ value ++ ")"

def list (items : List String) : String := "[" ++ ", ".intercalate items ++ "]"

/-! ## Values -/

/-- A double, positional from a ten-thousandth up to `10 ^ 16`. -/
def double (x : Float) : String := Decimal.pointed (-3) x

def location (p : Location) : String :=
  record "Location" [("lat", double p.lat), ("lon", double p.lon)]

def box (b : BoundingBox) : String :=
  record "BoundingBox" [("min_lat", double b.minLat), ("max_lat", double b.maxLat),
    ("min_lon", double b.minLon), ("max_lon", double b.maxLon)]

def shape : Shape → String
  | .circle center radius =>
    record "Circle" [("center", location center), ("radius", double radius)]
  | .rectangle southWest northEast =>
    record "Rectangle" [("south_west", location southWest), ("north_east", location northEast)]
  | .polygon points => record "Polygon" [("points", list (points.map location))]

/-- A corner in well-known text. -/
def corner (p : Location) : String := double p.lon ++ " " ++ double p.lat

/-- The region of a description: a circle, or its outline in well-known text. -/
def region : Shape → String
  | .circle center radius =>
    record "Cap" [("center", location center), ("radius", double radius)]
  | s => wrapped "Plane" ("POLYGON((" ++ ",".intercalate (s.closedCorners.map corner) ++ "))")

def geofence (g : Geofence) : String :=
  record "Geofence" [("shape", shape g.shape), ("bbox", box g.box), ("region", region g.shape)]

/-- The kind of a level, with its text. -/
def level : Level → String
  | .normal text => wrapped "Normal" (Text.shown text)
  | .blank => "Blank"
  | .single => "SingleWildcard"
  | .multi => "MultiWildcard"

def topic (t : Topic) : String := wrapped "Topic" (list (t.levels.map level))

def brokerInfo (b : BrokerInfo) : String :=
  record "BrokerInfo" [("id", Text.shown b.id), ("address", Text.shown b.address),
    ("port", Decimal.digitsText b.port)]

def publication (p : Publication) : String :=
  record "Publish" [("topic", topic p.topic), ("geofence", geofence p.geofence),
    ("content", Text.shown p.content)]

/-! ## Packets -/

/-- A payload that only has a reason. -/
def acknowledgement (name : String) (reason : Reason) : String :=
  record name [("reason", reason.name)]

def payload : Payload → String
  | .connect place => record "Connect" [("location", location place)]
  | .connack reason => acknowledgement "Connack" reason
  | .disconnect reason broker =>
    record "Disconnect" [("reason", reason.name),
      ("broker", (broker.map fun b => wrapped "Some" (brokerInfo b)).getD "None")]
  | .pingreq place => record "Pingreq" [("location", location place)]
  | .pingresp reason => acknowledgement "Pingresp" reason
  | .subscribe filter fence =>
    record "Subscribe" [("topic", topic filter), ("geofence", geofence fence)]
  | .suback reason => acknowledgement "Suback" reason
  | .unsubscribe filter => record "Unsubscribe" [("topic", topic filter)]
  | .unsuback reason => acknowledgement "Unsuback" reason
  | .publish p => wrapped "Publish" (publication p)
  | .puback reason => acknowledgement "Puback" reason
  | .forward p publisher =>
    record "BrokerForwardPublish" [("publish", publication p),
      ("publisher_location", location publisher)]

def addressee : Addressee → String
  | .client id => wrapped "Client" (Text.shown id)
  | .broker info => wrapped "Broker" (brokerInfo info)

def outbound (o : Outbound) : String :=
  record "Outbound" [("to", addressee o.recipient), ("payload", payload o.payload)]

end Geocast.Inspect
