import Geocast.Json.Reader
import Geocast.Json.Writer
import Geocast.Packet.Basic

/-!
# The wire form

How locations, geofences, packets and what they consist of are written as JSON values, and how they
are read back.

A record is an object, or an array of its fields in order. Unknown members are passed over, repeated
ones are refused. Fields are looked at in the order in which they stand, and the first fault counts,
also one before a place where the text is broken; a field that is missing is found missing at the
end. A value that is chosen by a tag, such as a geofence by `type` or a payload by `kind`, is read
as a whole first, so it must be sound. A tag is the name of a kind; in a value that was read as part
of such a whole (`Place.inner`) the place of the kind in the list of kinds will do as well.
-/
namespace Geocast

inductive WireError where
  | malformed
  | geofence (error : GeofenceError)
  | topic (error : TopicError)

def WireError.message? : WireError → Option String
  | malformed => none
  | geofence error => some error.message
  | topic error => some error.message

namespace Wire

/-- A reader of a JSON value. -/
abbrev Decoder (α : Type) := Json → Except WireError α

/-- Whether a value stands by itself, where arrays and objects may nest `room` deep in it, or was
read as part of a tagged whole. -/
inductive Place where
  | outer (room : Nat)
  | inner

namespace Place

/-- The place of a value that is the whole text. -/
def top : Place := .outer Json.depthLimit

/-- The place of a field of a record. -/
def below : Place → Place
  | outer room => outer (room - 1)
  | inner => inner

/-- Whether a value can be read as a whole here. -/
def holds (place : Place) (v : Json) : Bool :=
  match place with
  | outer room => v.sound room
  | inner => true

end Place

/-! ## Records -/

/-- A field of a record: its name, whether it may be missing, and whether a value is fit for it. -/
structure Field where
  name : String
  required : Bool
  check : Decoder Unit

def field {α : Type} (name : String) (decode : Decoder α) : Field :=
  ⟨name, true, fun v => (decode v).map fun _ => ()⟩

/-- A field that may be missing. -/
def optionalField {α : Type} (name : String) (decode : Decoder α) : Field :=
  ⟨name, false, fun v => (decode v).map fun _ => ()⟩

/-- Looks at the members in order: a known field must be fit and must not have been seen; the value
of any other member must be one that is `admitted`. -/
def checkMembers (fields : List Field) (admitted : Json → Bool) :
    List String → List (String × Json) → Except WireError Unit
  | _, [] => .ok ()
  | seen, (name, value) :: rest =>
    match fields.find? (·.name == name) with
    | none =>
      if admitted value then checkMembers fields admitted seen rest else .error .malformed
    | some f =>
      if seen.contains name then .error .malformed
      else
        match f.check value with
        | .error e => .error e
        | .ok _ => checkMembers fields admitted (name :: seen) rest

/-- The members of an object with the given fields; none missing, none unfit. -/
def membersOf (fields : List Field) (admitted : Json → Bool) (members : List (String × Json)) :
    Except WireError (List (String × Json)) := do
  checkMembers fields admitted [] members
  if fields.all fun f => !f.required || (Json.get? f.name members).isSome then pure members
  else throw .malformed

/-- The members of a record written as an array of its fields in order. -/
def membersOfItems (fields : List Field) (items : List Json) :
    Except WireError (List (String × Json)) := do
  let members := List.zip (fields.map (·.name)) items
  checkMembers fields Json.passable [] members
  if items.length ≤ fields.length && (fields.drop items.length).all fun f => !f.required then
    pure members
  else throw .malformed

def recordOf (fields : List Field) : Decoder (List (String × Json))
  | .obj members => membersOf fields Json.passable members
  | .arr items => membersOfItems fields items
  | _ => .error .malformed

def get {α : Type} (members : List (String × Json)) (name : String) (decode : Decoder α) :
    Except WireError α :=
  match Json.get? name members with
  | some v => decode v
  | none => .error .malformed

/-! ## Plain values -/

/-- A double; integers are doubles too. -/
def decodeFloat : Decoder Float
  | .float x => .ok x
  | .int n => .ok (Binary64.nearest (n < 0) n.natAbs 0)
  | _ => .error .malformed

def decodeText : Decoder String
  | .str s => .ok s
  | _ => .error .malformed

/-- A natural number below a bound. -/
def decodeNat (bound : Nat) : Decoder Nat
  | .int n => if 0 ≤ n ∧ n < bound then .ok n.toNat else .error .malformed
  | _ => .error .malformed

def decodeList {α : Type} (decode : Decoder α) : Decoder (List α)
  | .arr items => items.mapM decode
  | _ => .error .malformed

/-- A value that may be `null`. -/
def decodeOption {α : Type} (decode : Decoder α) : Decoder (Option α)
  | .null => .ok none
  | v => (decode v).map some

/-! ## Locations and boxes -/

def encodeLocation (p : Location) : Json := .obj [("lat", .float p.lat), ("lon", .float p.lon)]

/-- Reads a location, anywhere. -/
def decodeLocation : Decoder Location := fun v => do
  let ms ← recordOf [field "lat" decodeFloat, field "lon" decodeFloat] v
  pure ⟨← get ms "lat" decodeFloat, ← get ms "lon" decodeFloat⟩

def encodeBox (b : BoundingBox) : Json :=
  .obj [("min_lat", .float b.minLat), ("max_lat", .float b.maxLat), ("min_lon", .float b.minLon),
    ("max_lon", .float b.maxLon)]

def decodeBox : Decoder BoundingBox := fun v => do
  let ms ← recordOf (["min_lat", "max_lat", "min_lon", "max_lon"].map (field · decodeFloat)) v
  pure ⟨← get ms "min_lat" decodeFloat, ← get ms "max_lat" decodeFloat,
    ← get ms "min_lon" decodeFloat, ← get ms "max_lon" decodeFloat⟩

/-! ## Geofences -/

def encodeShape : Shape → Json
  | .circle center radius =>
    .obj [("type", .str "circle"), ("center", encodeLocation center), ("radius", .float radius)]
  | .rectangle southWest northEast =>
    .obj [("type", .str "rectangle"), ("south_west", encodeLocation southWest),
      ("north_east", encodeLocation northEast)]
  | .polygon points =>
    .obj [("type", .str "polygon"), ("points", .arr (points.map encodeLocation))]

/-- The wire form of a geofence is that of its description. -/
def encodeGeofence (g : Geofence) : Json := encodeShape g.shape

/-- Reads a tag: the name of one of the kinds, or its place in their list where that will do. -/
def decodeTag (place : Place) (kinds : List String) : Decoder String
  | .str name => if kinds.contains name then .ok name else .error .malformed
  | .int n =>
    match place, decide (0 ≤ n), kinds[n.toNat]? with
    | .inner, true, some name => .ok name
    | _, _, _ => .error .malformed
  | _ => .error .malformed

/-- Takes the tag from a tagged value: the first item of an array, or the member with the tag's
name, which must not be repeated. -/
def splitTag (place : Place) (tag : String) (kinds : List String) : Decoder (String × Json)
  | .arr (first :: rest) => (decodeTag place kinds first).map fun name => (name, .arr rest)
  | .obj members => do
    checkMembers [field tag (decodeTag place kinds)] Json.passable [] members
    let name ← get members tag (decodeTag place kinds)
    pure (name, .obj (members.filter fun m => m.1 != tag))
  | _ => .error .malformed

def decodeShapeOf (kind : String) : Decoder Shape := fun v =>
  if kind == "circle" then do
    let ms ← recordOf [field "center" decodeLocation, field "radius" decodeFloat] v
    pure (.circle (← get ms "center" decodeLocation) (← get ms "radius" decodeFloat))
  else if kind == "rectangle" then do
    let ms ← recordOf [field "south_west" decodeLocation, field "north_east" decodeLocation] v
    pure (.rectangle (← get ms "south_west" decodeLocation) (← get ms "north_east" decodeLocation))
  else if kind == "polygon" then do
    let ms ← recordOf [field "points" (decodeList decodeLocation)] v
    pure (.polygon (← get ms "points" (decodeList decodeLocation)))
  else .error .malformed

def shapeKinds : List String := ["circle", "rectangle", "polygon"]

def decodeShape (place : Place) : Decoder Shape := fun v =>
  if place.holds v then do
    let (kind, rest) ← splitTag place "type" shapeKinds v
    decodeShapeOf kind rest
  else .error .malformed

/-- Reads a geofence; its description must be accepted. -/
def decodeGeofence (place : Place) : Decoder Geofence := fun v => do
  match Geofence.ofShape (← decodeShape place v) with
  | .ok g => pure g
  | .error e => throw (.geofence e)

/-! ## Topics, ids, brokers and reasons -/

/-- The wire form of a topic is its text. -/
def encodeTopic (t : Topic) : Json := .str t.display

def decodeTopic : Decoder Topic := fun v => do
  match Topic.parse (← decodeText v) with
  | .ok t => pure t
  | .error e => throw (.topic e)

def encodeSubscriptionId (id : SubscriptionId) : Json :=
  .obj [("client_id", .str id.client), ("seq", .int id.seq)]

def decodeSubscriptionId : Decoder SubscriptionId := fun v => do
  let ms ← recordOf [field "client_id" decodeText, field "seq" (decodeNat 0x10000000000000000)] v
  pure ⟨← get ms "client_id" decodeText, ← get ms "seq" (decodeNat 0x10000000000000000)⟩

def encodeBrokerInfo (b : BrokerInfo) : Json :=
  .obj [("id", .str b.id), ("address", .str b.address), ("port", .int b.port)]

def decodeBrokerInfo : Decoder BrokerInfo := fun v => do
  let ms ← recordOf
    [field "id" decodeText, field "address" decodeText, field "port" (decodeNat 65536)] v
  pure ⟨← get ms "id" decodeText, ← get ms "address" decodeText, ← get ms "port" (decodeNat 65536)⟩

/-- The wire form of a reason is its word. -/
def encodeReason (r : Reason) : Json := .str r.name

def reasonNamed (name : String) : Except WireError Reason :=
  match Reason.all.find? (·.name == name) with
  | some r => .ok r
  | none => .error .malformed

/-- Reads a reason: its word, or an object with the word as its only member and `null` in it, or an
empty object where the reason is part of a tagged whole. -/
def decodeReason (place : Place) : Decoder Reason
  | .str name => reasonNamed name
  | .obj [(name, .null)] => reasonNamed name
  | .obj [(name, .obj [])] =>
    match place with
    | .inner => reasonNamed name
    | .outer _ => .error .malformed
  | _ => .error .malformed

/-! ## Publications and payloads -/

def publicationMembers (p : Publication) : List (String × Json) :=
  [("topic", encodeTopic p.topic), ("geofence", encodeGeofence p.geofence),
    ("content", .str p.content)]

def encodePublication (p : Publication) : Json := .obj (publicationMembers p)

def decodePublication (place : Place) : Decoder Publication := fun v => do
  let ms ← recordOf [field "topic" decodeTopic, field "geofence" (decodeGeofence place.below),
    field "content" decodeText] v
  pure ⟨← get ms "topic" decodeTopic, ← get ms "geofence" (decodeGeofence place.below),
    ← get ms "content" decodeText⟩

/-- The members of a payload, its kind first. -/
def payloadMembers (p : Payload) : List (String × Json) :=
  ("kind", .str p.kind) ::
    match p with
    | .connect location | .pingreq location => [("location", encodeLocation location)]
    | .connack reason | .pingresp reason | .suback reason | .unsuback reason | .puback reason =>
      [("reason", encodeReason reason)]
    | .disconnect reason broker =>
      ("reason", encodeReason reason) ::
        (broker.map fun b => ("broker", encodeBrokerInfo b)).toList
    | .subscribe topic geofence =>
      [("topic", encodeTopic topic), ("geofence", encodeGeofence geofence)]
    | .unsubscribe topic => [("topic", encodeTopic topic)]
    | .publish publication => publicationMembers publication
    | .forward publication publisher =>
      [("publish", encodePublication publication),
        ("publisher_location", encodeLocation publisher)]

def encodePayload (p : Payload) : Json := .obj (payloadMembers p)

def decodeReasonOnly (make : Reason → Payload) : Decoder Payload := fun v => do
  let ms ← recordOf [field "reason" (decodeReason .inner)] v
  pure (make (← get ms "reason" (decodeReason .inner)))

def decodeLocationOnly (make : Location → Payload) : Decoder Payload := fun v => do
  let ms ← recordOf [field "location" decodeLocation] v
  pure (make (← get ms "location" decodeLocation))

def decodePayloadOf (kind : String) : Decoder Payload := fun v =>
  if kind == "CONNECT" then decodeLocationOnly .connect v
  else if kind == "CONNACK" then decodeReasonOnly .connack v
  else if kind == "DISCONNECT" then do
    let ms ← recordOf [field "reason" (decodeReason .inner),
      optionalField "broker" (decodeOption decodeBrokerInfo)] v
    let broker ←
      match Json.get? "broker" ms with
      | some b => decodeOption decodeBrokerInfo b
      | none => pure none
    pure (.disconnect (← get ms "reason" (decodeReason .inner)) broker)
  else if kind == "PINGREQ" then decodeLocationOnly .pingreq v
  else if kind == "PINGRESP" then decodeReasonOnly .pingresp v
  else if kind == "SUBSCRIBE" then do
    let ms ← recordOf [field "topic" decodeTopic, field "geofence" (decodeGeofence .inner)] v
    pure (.subscribe (← get ms "topic" decodeTopic) (← get ms "geofence" (decodeGeofence .inner)))
  else if kind == "SUBACK" then decodeReasonOnly .suback v
  else if kind == "UNSUBSCRIBE" then do
    let ms ← recordOf [field "topic" decodeTopic] v
    pure (.unsubscribe (← get ms "topic" decodeTopic))
  else if kind == "UNSUBACK" then decodeReasonOnly .unsuback v
  else if kind == "PUBLISH" then (decodePublication .inner v).map .publish
  else if kind == "PUBACK" then decodeReasonOnly .puback v
  else if kind == "BROKER_FORWARD_PUBLISH" then do
    let ms ← recordOf
      [field "publish" (decodePublication .inner), field "publisher_location" decodeLocation] v
    pure (.forward (← get ms "publish" (decodePublication .inner))
      (← get ms "publisher_location" decodeLocation))
  else .error .malformed

def payloadKinds : List String :=
  ["CONNECT", "CONNACK", "DISCONNECT", "PINGREQ", "PINGRESP", "SUBSCRIBE", "SUBACK", "UNSUBSCRIBE",
    "UNSUBACK", "PUBLISH", "PUBACK", "BROKER_FORWARD_PUBLISH"]

def decodePayload (place : Place) : Decoder Payload := fun v =>
  if place.holds v then do
    let (kind, rest) ← splitTag place "kind" payloadKinds v
    decodePayloadOf kind rest
  else .error .malformed

/-! ## Packets -/

/-- The wire form of a packet: the sender beside the members of the payload. -/
def encodePacket (p : Packet) : Json := .obj (("sender", .str p.sender) :: payloadMembers p.payload)

/-- Reads a field that stands beside the members of a payload, which are read as a whole. -/
def decodeBeside {α : Type} (name : String) (decode : Decoder α) : Decoder (α × Payload)
  | .obj members => do
    let ms ← membersOf [field name decode] Place.top.below.holds members
    let first ← get ms name decode
    let payload ← decodePayload .inner (.obj (members.filter fun m => m.1 != name))
    pure (first, payload)
  | _ => .error .malformed

def decodePacket : Decoder Packet := fun v => do
  let (sender, payload) ← decodeBeside "sender" decodeText v
  pure ⟨sender, payload⟩

def encodeAddressee : Addressee → Json
  | .client id => .obj [("client", .str id)]
  | .broker info => .obj [("broker", encodeBrokerInfo info)]

/-- Reads an addressee: an object with a single member. -/
def decodeAddressee : Decoder Addressee
  | .obj [(name, v)] =>
    if name == "client" then (decodeText v).map .client
    else if name == "broker" then (decodeBrokerInfo v).map .broker
    else .error .malformed
  | _ => .error .malformed

def encodeOutbound (o : Outbound) : Json :=
  .obj (("to", encodeAddressee o.recipient) :: payloadMembers o.payload)

def decodeOutbound : Decoder Outbound := fun v => do
  let (recipient, payload) ← decodeBeside "to" decodeAddressee v
  pure ⟨recipient, payload⟩

/-! ## Text -/

/-- Reads the wire form of one value from a text. What is wrong with the value counts before what
follows it. -/
def decodeLine {α : Type} (decode : Decoder α) (s : String) : Except WireError α := do
  let (v, after) := Json.readFirst s
  let a ← decode v
  if Json.isEnd after then pure a else throw .malformed

/-- The wire form as a line of text. -/
def encodeLine (v : Json) : String := v.render

end Wire

end Geocast
