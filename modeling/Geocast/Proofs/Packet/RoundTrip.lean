import Geocast.Proofs.Geofence.Description
import Geocast.Proofs.Json.RoundTrip
import Geocast.Proofs.Packet.Records
import Geocast.Proofs.Packet.Topics

/-!
# Packets come back as they were sent

The wire form of a packet is read as that packet, whatever its kind and whoever it is for, if

* its topics were read from text,
* its geofences are equal to the ones that are made of their descriptions,
* its ports have 16 bits, and
* its doubles are finite and are read back from their texts.

The first part of the argument is about JSON values: every reader undoes its writer. The payload is
read from the members that are left when the sender or addressee and the kind are taken off. The
second part is about text: a wire form is a plain value, so its line holds it and nothing else.

* `Payload.Sendable`: what is asked of a payload.
* `decodePayload_encodePayload`, `decodeBeside_payloadMembers`: readers undo writers.
* `plainMembers_payloadMembers`: payloads are plain values.
* `decodeLine_encodeLine`: packets come back, in both directions.
-/
namespace Geocast

/-! ## What is sent -/

def Location.doubles (p : Location) : List Float := [p.lat, p.lon]

def Shape.doubles : Shape → List Float
  | circle center radius => center.doubles ++ [radius]
  | rectangle southWest northEast => southWest.doubles ++ northEast.doubles
  | polygon points => points.flatMap Location.doubles

namespace Payload

/-- The locations of a payload outside of its geofence. -/
def locations : Payload → List Location
  | connect location | pingreq location | forward _ location => [location]
  | _ => []

def topics : Payload → List Topic
  | subscribe topic _ | unsubscribe topic => [topic]
  | publish publication | forward publication _ => [publication.topic]
  | _ => []

def geofences : Payload → List Geofence
  | subscribe _ geofence => [geofence]
  | publish publication | forward publication _ => [publication.geofence]
  | _ => []

def brokers : Payload → List BrokerInfo
  | disconnect _ broker => broker.toList
  | _ => []

def doubles (p : Payload) : List Float :=
  p.locations.flatMap Location.doubles ++ p.geofences.flatMap fun g => g.shape.doubles

/-- What is asked of a payload so that it comes back. -/
structure Sendable (p : Payload) : Prop where
  finite : ∀ x ∈ p.doubles, x.isFinite = true
  topic_parses : ∀ t ∈ p.topics, ∃ text, Topic.parse text = .ok t
  geofence_survives : ∀ g ∈ p.geofences, g.Survives
  port_lt : ∀ b ∈ p.brokers, b.port < 65536

end Payload

def Addressee.brokers : Addressee → List BrokerInfo
  | client _ => []
  | broker info => [info]

namespace Wire

/-! ## Readers undo writers -/

theorem decodeLocation_encodeLocation (p : Location) :
    decodeLocation (encodeLocation p) = .ok p := rfl

theorem decodeReason_encodeReason (place : Place) (r : Reason) :
    decodeReason place (encodeReason r) = .ok r := by
  cases r <;> rfl

theorem decodeNat_int {n bound : Nat} (h : n < bound) : decodeNat bound (.int n) = .ok n := by
  have hbound : (0 : Int) ≤ n ∧ (n : Int) < bound := by omega
  rw [decodeNat, if_pos hbound, Int.toNat_natCast]

theorem decodeList_map {α : Type} {decode : Decoder α} {encode : α → Json}
    (h : ∀ a, decode (encode a) = .ok a) (as : List α) :
    decodeList decode (.arr (as.map encode)) = .ok as := by
  rw [decodeList]
  induction as with
  | nil => rfl
  | cons a as ih => simp [List.mapM_cons, h, ih]

theorem decodeTopic_encodeTopic {t : Topic} (h : ∃ text, Topic.parse text = .ok t) :
    decodeTopic (encodeTopic t) = .ok t := by
  obtain ⟨text, htext⟩ := h
  simp [decodeTopic, encodeTopic, decodeText, Topic.display_of_parse htext, htext]

theorem decodeBrokerInfo_encodeBrokerInfo {b : BrokerInfo} (h : b.port < 65536) :
    decodeBrokerInfo (encodeBrokerInfo b) = .ok b := by
  have hport : decodeNat 65536 (.int b.port) = .ok b.port := decodeNat_int h
  rw [decodeBrokerInfo, encodeBrokerInfo, recordOf_of_fits]
  · simp [decodeText, hport]
  · simp [Fits, decodeText, hport]
  · simp
  · simp

theorem decodeAddressee_encodeAddressee {a : Addressee} (h : ∀ b ∈ a.brokers, b.port < 65536) :
    decodeAddressee (encodeAddressee a) = .ok a := by
  cases a with
  | client id => rfl
  | broker info =>
    have hinfo := decodeBrokerInfo_encodeBrokerInfo (h info List.mem_cons_self)
    simp [decodeAddressee, encodeAddressee, hinfo]

/-! ## Wire forms can be read as a whole -/

section Sound

variable {limit : Nat}

theorem sound_encodeLocation (p : Location) : (encodeLocation p).sound (limit + 1) = true := rfl

theorem soundItems_encodeLocation (points : List Location) :
    Json.soundItems (limit + 1) (points.map encodeLocation) = true := by
  induction points with
  | nil => rfl
  | cons p points ih => simp [Json.soundItems, sound_encodeLocation, ih]

theorem sound_encodeShape (s : Shape) : (encodeShape s).sound (limit + 3) = true := by
  cases s with
  | circle center radius =>
    simp [encodeShape, Json.sound, Json.soundMembers, sound_encodeLocation]
  | rectangle southWest northEast =>
    simp [encodeShape, Json.sound, Json.soundMembers, sound_encodeLocation]
  | polygon points =>
    simp [encodeShape, Json.sound, Json.soundMembers, soundItems_encodeLocation]

theorem sound_encodePublication (p : Publication) :
    (encodePublication p).sound (limit + 4) = true := by
  simp [encodePublication, publicationMembers, Json.sound, Json.soundMembers, encodeTopic,
    encodeGeofence, sound_encodeShape]

theorem sound_payloadMembers (p : Payload) :
    ∀ m ∈ payloadMembers p, m.2.sound (limit + 4) = true := by
  cases p with
  | disconnect reason broker =>
    cases broker <;> simp [payloadMembers, Json.sound, Json.soundMembers, encodeReason,
      encodeBrokerInfo]
  | _ => simp [payloadMembers, publicationMembers, Json.sound, encodeReason, encodeTopic,
      encodeGeofence, sound_encodeLocation, sound_encodeShape, sound_encodePublication]

end Sound

/-! ## Geofences and publications -/

theorem decodeShapeOf_circle (center : Location) (radius : Float) :
    decodeShapeOf "circle" (.obj [("center", encodeLocation center), ("radius", .float radius)]) =
      .ok (.circle center radius) := by
  simp only [decodeShapeOf, String.reduceBEq, ↓reduceIte]
  rw [recordOf_of_fits]
  · simp [decodeLocation_encodeLocation, decodeFloat]
  · simp [Fits, decodeLocation_encodeLocation, decodeFloat]
  · simp
  · simp

theorem decodeShapeOf_rectangle (southWest northEast : Location) :
    decodeShapeOf "rectangle" (.obj [("south_west", encodeLocation southWest),
      ("north_east", encodeLocation northEast)]) = .ok (.rectangle southWest northEast) := by
  simp only [decodeShapeOf, String.reduceBEq, Bool.false_eq_true, ↓reduceIte]
  rw [recordOf_of_fits]
  · simp [decodeLocation_encodeLocation]
  · simp [Fits, decodeLocation_encodeLocation]
  · simp
  · simp

theorem decodeShapeOf_polygon (points : List Location) :
    decodeShapeOf "polygon" (.obj [("points", .arr (points.map encodeLocation))]) =
      .ok (.polygon points) := by
  have hpoints := decodeList_map decodeLocation_encodeLocation points
  simp only [decodeShapeOf, String.reduceBEq, Bool.false_eq_true, ↓reduceIte]
  rw [recordOf_of_fits]
  · simp [hpoints]
  · simp [Fits, hpoints]
  · simp
  · simp

theorem decodeShape_of_tag {kind : String} {members : List (String × Json)}
    (hkind : kind ∈ shapeKinds) (hpassable : ∀ m ∈ members, m.2.passable = true)
    (hnodup : ("type" :: members.map Prod.fst).Nodup) :
    decodeShape .inner (.obj (("type", .str kind) :: members)) =
      decodeShapeOf kind (.obj members) := by
  simp [decodeShape, Place.holds, splitTag_of_passable hkind hpassable hnodup]

theorem decodeShape_encodeShape (s : Shape) : decodeShape .inner (encodeShape s) = .ok s := by
  have hlocation : ∀ p, (encodeLocation p).passable = true :=
    fun p => passable_of_sound (sound_encodeLocation p : Json.sound 1 _ = true)
  cases s with
  | circle center radius =>
    rw [encodeShape, decodeShape_of_tag, decodeShapeOf_circle]
    · simp [shapeKinds]
    · have hradius : (Json.float radius).passable = true := rfl
      simp [hlocation, hradius]
    · simp
  | rectangle southWest northEast =>
    rw [encodeShape, decodeShape_of_tag, decodeShapeOf_rectangle]
    · simp [shapeKinds]
    · simp [hlocation]
    · simp
  | polygon points =>
    rw [encodeShape, decodeShape_of_tag, decodeShapeOf_polygon]
    · simp [shapeKinds]
    · have hpoints : (Json.arr (points.map encodeLocation)).passable = true :=
        intactItems_of_sound _ 1 (soundItems_encodeLocation points)
      simp [hpoints]
    · simp

theorem decodeGeofence_encodeGeofence {g : Geofence} (h : g.Survives) :
    decodeGeofence .inner (encodeGeofence g) = .ok g := by
  simp [decodeGeofence, encodeGeofence, decodeShape_encodeShape, Geofence.ofShape_of_survives h]

theorem decodePublication_encodePublication {p : Publication}
    (htopic : ∃ text, Topic.parse text = .ok p.topic) (hgeofence : p.geofence.Survives) :
    decodePublication .inner (encodePublication p) = .ok p := by
  have htopic := decodeTopic_encodeTopic htopic
  have hgeofence : decodeGeofence Place.inner.below (encodeGeofence p.geofence) = .ok p.geofence :=
    decodeGeofence_encodeGeofence hgeofence
  rw [decodePublication, encodePublication, publicationMembers, recordOf_of_fits]
  · simp [htopic, hgeofence, decodeText]
  · simp [Fits, htopic, hgeofence, decodeText]
  · simp
  · simp

/-! ## Payloads -/

/-- The members of a payload after its kind. -/
def payloadFields (p : Payload) : List (String × Json) := (payloadMembers p).tail

theorem nodup_payloadMembers (p : Payload) : ((payloadMembers p).map Prod.fst).Nodup := by
  cases p with
  | disconnect reason broker => cases broker <;> simp [payloadMembers]
  | _ => simp [payloadMembers, publicationMembers]

theorem kind_mem_payloadKinds (p : Payload) : p.kind ∈ payloadKinds := by
  cases p <;> simp [Payload.kind, payloadKinds]

theorem decodeLocationOnly_eq (make : Location → Payload) (location : Location) :
    decodeLocationOnly make (.obj [("location", encodeLocation location)]) =
      .ok (make location) := by
  rw [decodeLocationOnly, recordOf_of_fits]
  · simp [decodeLocation_encodeLocation]
  · simp [Fits, decodeLocation_encodeLocation]
  · simp
  · simp

theorem decodeReasonOnly_eq (make : Reason → Payload) (reason : Reason) :
    decodeReasonOnly make (.obj [("reason", encodeReason reason)]) = .ok (make reason) := by
  rw [decodeReasonOnly, recordOf_of_fits]
  · simp [decodeReason_encodeReason]
  · simp [Fits, decodeReason_encodeReason]
  · simp
  · simp

theorem decodePayloadOf_disconnect (reason : Reason) {broker : Option BrokerInfo}
    (h : ∀ b ∈ broker.toList, b.port < 65536) :
    decodePayloadOf "DISCONNECT" (.obj (payloadFields (.disconnect reason broker))) =
      .ok (.disconnect reason broker) := by
  simp only [decodePayloadOf, String.reduceBEq, Bool.false_eq_true, ↓reduceIte]
  cases broker with
  | none =>
    rw [payloadFields, payloadMembers, List.tail_cons, recordOf_of_fits]
    · simp [decodeReason_encodeReason, Json.get?]
    · simp [Fits, decodeReason_encodeReason]
    · simp
    · simp
  | some b =>
    have hb : decodeOption decodeBrokerInfo (encodeBrokerInfo b) = .ok (some b) := by
      have hread := decodeBrokerInfo_encodeBrokerInfo (h b List.mem_cons_self)
      rw [decodeOption, hread]
      · rfl
      · simp [encodeBrokerInfo]
    rw [payloadFields, payloadMembers, List.tail_cons, recordOf_of_fits]
    · simp [decodeReason_encodeReason, Json.get?, hb]
    · simp [Fits, decodeReason_encodeReason, hb]
    · simp
    · simp

theorem decodePayloadOf_subscribe {topic : Topic} {geofence : Geofence}
    (htopic : ∃ text, Topic.parse text = .ok topic) (hgeofence : geofence.Survives) :
    decodePayloadOf "SUBSCRIBE"
        (.obj [("topic", encodeTopic topic), ("geofence", encodeGeofence geofence)]) =
      .ok (.subscribe topic geofence) := by
  have htopic := decodeTopic_encodeTopic htopic
  have hgeofence := decodeGeofence_encodeGeofence hgeofence
  simp only [decodePayloadOf, String.reduceBEq, Bool.false_eq_true, ↓reduceIte]
  rw [recordOf_of_fits]
  · simp [htopic, hgeofence]
  · simp [Fits, htopic, hgeofence]
  · simp
  · simp

theorem decodePayloadOf_unsubscribe {topic : Topic} (h : ∃ text, Topic.parse text = .ok topic) :
    decodePayloadOf "UNSUBSCRIBE" (.obj [("topic", encodeTopic topic)]) =
      .ok (.unsubscribe topic) := by
  have htopic := decodeTopic_encodeTopic h
  simp only [decodePayloadOf, String.reduceBEq, Bool.false_eq_true, ↓reduceIte]
  rw [recordOf_of_fits]
  · simp [htopic]
  · simp [Fits, htopic]
  · simp
  · simp

theorem decodePayloadOf_forward {publication : Publication} (publisher : Location)
    (htopic : ∃ text, Topic.parse text = .ok publication.topic)
    (hgeofence : publication.geofence.Survives) :
    decodePayloadOf "BROKER_FORWARD_PUBLISH" (.obj [("publish", encodePublication publication),
        ("publisher_location", encodeLocation publisher)]) =
      .ok (.forward publication publisher) := by
  have hpublication := decodePublication_encodePublication htopic hgeofence
  simp only [decodePayloadOf, String.reduceBEq, Bool.false_eq_true, ↓reduceIte]
  rw [recordOf_of_fits]
  · simp [hpublication, decodeLocation_encodeLocation]
  · simp [Fits, hpublication, decodeLocation_encodeLocation]
  · simp
  · simp

theorem decodePayloadOf_payloadFields {p : Payload}
    (htopics : ∀ t ∈ p.topics, ∃ text, Topic.parse text = .ok t)
    (hgeofences : ∀ g ∈ p.geofences, g.Survives) (hbrokers : ∀ b ∈ p.brokers, b.port < 65536) :
    decodePayloadOf p.kind (.obj (payloadFields p)) = .ok p := by
  cases p with
  | connect location => exact decodeLocationOnly_eq .connect location
  | connack reason => exact decodeReasonOnly_eq .connack reason
  | disconnect reason broker => exact decodePayloadOf_disconnect reason hbrokers
  | pingreq location => exact decodeLocationOnly_eq .pingreq location
  | pingresp reason => exact decodeReasonOnly_eq .pingresp reason
  | subscribe topic geofence =>
    exact decodePayloadOf_subscribe (htopics topic List.mem_cons_self)
      (hgeofences geofence List.mem_cons_self)
  | suback reason => exact decodeReasonOnly_eq .suback reason
  | unsubscribe topic => exact decodePayloadOf_unsubscribe (htopics topic List.mem_cons_self)
  | unsuback reason => exact decodeReasonOnly_eq .unsuback reason
  | publish publication =>
    have hread := decodePublication_encodePublication (htopics _ List.mem_cons_self)
      (hgeofences _ List.mem_cons_self)
    exact congrArg (Except.map Payload.publish) hread
  | puback reason => exact decodeReasonOnly_eq .puback reason
  | forward publication publisher =>
    exact decodePayloadOf_forward publisher (htopics _ List.mem_cons_self)
      (hgeofences _ List.mem_cons_self)

theorem decodePayload_encodePayload {p : Payload} (h : p.Sendable) :
    decodePayload .inner (encodePayload p) = .ok p := by
  have hpassable : ∀ m ∈ payloadFields p, m.2.passable = true := fun m hm =>
    passable_of_sound (sound_payloadMembers p m (List.mem_of_mem_tail hm) : Json.sound 4 _ = true)
  have hsplit : splitTag .inner "kind" payloadKinds (encodePayload p) =
      .ok (p.kind, .obj (payloadFields p)) :=
    splitTag_of_passable (kind_mem_payloadKinds p) hpassable (nodup_payloadMembers p)
  have hread := decodePayloadOf_payloadFields h.topic_parses h.geofence_survives h.port_lt
  simp [decodePayload, Place.holds, hsplit, hread]

/-! ## Packets -/

def payloadNames : List String :=
  ["kind", "location", "reason", "broker", "topic", "geofence", "content", "publish",
    "publisher_location"]

theorem notMem_payloadMembers {name : String} (h : name ∉ payloadNames) (p : Payload) :
    name ∉ (payloadMembers p).map Prod.fst := by
  simp only [payloadNames, List.mem_cons, List.not_mem_nil, or_false, not_or] at h
  cases p with
  | disconnect reason broker => cases broker <;> simp [payloadMembers, h]
  | _ => simp [payloadMembers, publicationMembers, h]

theorem decodeBeside_payloadMembers {α : Type} {name : String} {decode : Decoder α} {v : Json}
    {a : α} {p : Payload} (hv : decode v = .ok a) (hname : name ∉ payloadNames) (hp : p.Sendable) :
    decodeBeside name decode (.obj ((name, v) :: payloadMembers p)) = .ok (a, p) := by
  have hname := notMem_payloadMembers hname p
  have hmembers : membersOf [field name decode] Place.top.below.holds
      ((name, v) :: payloadMembers p) = .ok ((name, v) :: payloadMembers p) := by
    refine membersOf_of_fits ?_ (List.nodup_cons.2 ⟨hname, nodup_payloadMembers p⟩) (by simp)
    intro m hm
    rcases List.mem_cons.1 hm with rfl | hm
    · simp [Fits, hv]
    · have hne : name ≠ m.1 := fun heq => hname (List.mem_map.2 ⟨m, hm, heq.symm⟩)
      have hsound : Place.top.below.holds m.2 = true := sound_payloadMembers p m hm
      simp [Fits, hne, hsound]
  have hrest : ((name, v) :: payloadMembers p).filter (fun m => m.1 != name) =
      payloadMembers p := by
    simpa using filter_name_ne hname
  have hpayload : decodePayload .inner (.obj (payloadMembers p)) = .ok p :=
    decodePayload_encodePayload hp
  simp [decodeBeside, hmembers, hv, hrest, hpayload]

theorem decodePacket_encodePacket {p : Packet} (h : p.payload.Sendable) :
    decodePacket (encodePacket p) = .ok p := by
  have hsender : decodeText (.str p.sender) = .ok p.sender := rfl
  have hname : "sender" ∉ payloadNames := by simp [payloadNames]
  rw [decodePacket, encodePacket, decodeBeside_payloadMembers hsender hname h]
  rfl

theorem decodeOutbound_encodeOutbound {o : Outbound}
    (hto : ∀ b ∈ o.recipient.brokers, b.port < 65536) (h : o.payload.Sendable) :
    decodeOutbound (encodeOutbound o) = .ok o := by
  have hrecipient := decodeAddressee_encodeAddressee hto
  have hname : "to" ∉ payloadNames := by simp [payloadNames]
  rw [decodeOutbound, encodeOutbound, decodeBeside_payloadMembers hrecipient hname h]
  rfl

/-! ## Wire forms are plain values -/

section Plain

open Json (ReadsBack Plain PlainItems PlainMembers)

theorem plain_encodeLocation {p : Location} (h : ∀ x ∈ p.doubles, ReadsBack x) :
    Plain (encodeLocation p) := by
  simpa [Location.doubles, encodeLocation] using h

theorem plainItems_encodeLocation {points : List Location}
    (h : ∀ p ∈ points, ∀ x ∈ p.doubles, ReadsBack x) :
    PlainItems (points.map encodeLocation) := by
  induction points with
  | nil => trivial
  | cons p points ih =>
    rw [List.forall_mem_cons] at h
    exact ⟨plain_encodeLocation h.1, ih h.2⟩

theorem plain_encodeShape {s : Shape} (h : ∀ x ∈ s.doubles, ReadsBack x) :
    Plain (encodeShape s) := by
  cases s with
  | circle center radius =>
    rw [Shape.doubles, List.forall_mem_append] at h
    have hcenter := plain_encodeLocation h.1
    have hradius : ReadsBack radius := h.2 radius List.mem_cons_self
    simp [encodeShape, hcenter, hradius]
  | rectangle southWest northEast =>
    rw [Shape.doubles, List.forall_mem_append] at h
    have hsouthWest := plain_encodeLocation h.1
    have hnorthEast := plain_encodeLocation h.2
    simp [encodeShape, hsouthWest, hnorthEast]
  | polygon points =>
    have hpoints : PlainItems (points.map encodeLocation) :=
      plainItems_encodeLocation fun p hp x hx => h x (List.mem_flatMap_of_mem hp hx)
    simp [encodeShape, hpoints]

theorem plain_encodeBrokerInfo {b : BrokerInfo} (h : b.port < 65536) :
    Plain (encodeBrokerInfo b) := by
  have hport : -0x8000000000000000 ≤ (b.port : Int) ∧ (b.port : Int) < 0x10000000000000000 := by
    omega
  simpa [encodeBrokerInfo] using hport

theorem plain_encodeAddressee {a : Addressee} (h : ∀ b ∈ a.brokers, b.port < 65536) :
    Plain (encodeAddressee a) := by
  cases a with
  | client id => simp [encodeAddressee]
  | broker info => simp [encodeAddressee, plain_encodeBrokerInfo (h info List.mem_cons_self)]

theorem plainMembers_payloadMembers {p : Payload} (hbrokers : ∀ b ∈ p.brokers, b.port < 65536)
    (h : ∀ x ∈ p.doubles, ReadsBack x) : PlainMembers (payloadMembers p) := by
  rw [Payload.doubles, List.forall_mem_append] at h
  have hlocation : ∀ l ∈ p.locations, Plain (encodeLocation l) := fun l hl =>
    plain_encodeLocation fun x hx => h.1 x (List.mem_flatMap_of_mem hl hx)
  have hgeofence : ∀ g ∈ p.geofences, Plain (encodeGeofence g) := fun g hg =>
    plain_encodeShape fun x hx => h.2 x (List.mem_flatMap_of_mem hg hx)
  have hbroker : ∀ b ∈ p.brokers, Plain (encodeBrokerInfo b) := fun b hb =>
    plain_encodeBrokerInfo (hbrokers b hb)
  clear h hbrokers
  cases p with
  | disconnect reason broker =>
    cases broker with
    | none => simp [payloadMembers, encodeReason]
    | some b => simp [payloadMembers, encodeReason, hbroker b List.mem_cons_self]
  | forward publication publisher =>
    simp [payloadMembers, encodePublication, publicationMembers, encodeTopic,
      hgeofence _ List.mem_cons_self, hlocation publisher List.mem_cons_self]
  | publish publication =>
    simp [payloadMembers, publicationMembers, encodeTopic, hgeofence _ List.mem_cons_self]
  | subscribe topic geofence =>
    simp [payloadMembers, encodeTopic, hgeofence geofence List.mem_cons_self]
  | unsubscribe topic => simp [payloadMembers, encodeTopic]
  | connect location | pingreq location =>
    simp [payloadMembers, hlocation location List.mem_cons_self]
  | _ => simp [payloadMembers, encodeReason]

end Plain

/-! ## Lines -/

theorem decodeLine_encodeLine_of_plain {α : Type} {decode : Decoder α} {v : Json} {a : α}
    (hplain : v.Plain) (hread : decode v = .ok a) :
    decodeLine decode (encodeLine v) = .ok a := by
  simp [decodeLine, encodeLine, Json.readFirst_render hplain, hread, Json.isEnd, Json.skipBlanks]

/-- Every packet that can be sent, to a broker or by one, is read back from its line, whatever its
kind and whoever it is for. That its doubles are read back from their texts is assumed. -/
theorem decodeLine_encodeLine :
    (∀ p : Packet, p.payload.Sendable →
      (∀ x ∈ p.payload.doubles, x.isFinite = true → Json.ReadsBack x) →
        decodeLine decodePacket (encodeLine (encodePacket p)) = .ok p) ∧
    (∀ o : Outbound, o.payload.Sendable → (∀ b ∈ o.recipient.brokers, b.port < 65536) →
      (∀ x ∈ o.payload.doubles, x.isFinite = true → Json.ReadsBack x) →
        decodeLine decodeOutbound (encodeLine (encodeOutbound o)) = .ok o) := by
  constructor
  · intro p hp hassumed
    have hmembers := plainMembers_payloadMembers hp.port_lt fun x hx =>
      hassumed x hx (hp.finite x hx)
    refine decodeLine_encodeLine_of_plain ?_ (decodePacket_encodePacket hp)
    simp [encodePacket, hmembers]
  · intro o ho hto hassumed
    have hmembers := plainMembers_payloadMembers ho.port_lt fun x hx =>
      hassumed x hx (ho.finite x hx)
    refine decodeLine_encodeLine_of_plain ?_ (decodeOutbound_encodeOutbound hto ho)
    simp [encodeOutbound, plain_encodeAddressee hto, hmembers]

end Wire

/-- A broker hands over what a client near the origin sent to `a`. -/
def Packet.handover : Packet :=
  ⟨"east", .forward ⟨⟨[.normal "a"]⟩, .nearOrigin, "hello"⟩ ⟨0.25, 0.25⟩⟩

/-- A broker tells another one that a third one is responsible. -/
def Outbound.redirect : Outbound :=
  ⟨.broker ⟨"west", "localhost", 5559⟩,
    .disconnect .wrongBroker (some ⟨"east", "localhost", 5560⟩)⟩

theorem Packet.sendable_handover : Packet.handover.payload.Sendable where
  finite := by decide +kernel
  topic_parses := by
    intro t ht
    rw [List.mem_singleton.1 ht]
    exact ⟨"a", rfl⟩
  geofence_survives := by
    intro g hg
    rw [List.mem_singleton.1 hg]
    exact Geofence.survives_of_open rfl
  port_lt := nofun

theorem Outbound.sendable_redirect : Outbound.redirect.payload.Sendable where
  finite := nofun
  topic_parses := nofun
  geofence_survives := nofun
  port_lt := by decide

/-- A publication that is handed over and a disconnect that names a broker come back. -/
theorem Wire.decodeLine_encodeLine_handover :
    Packet.handover.payload.Sendable ∧
      decodeLine decodePacket (encodeLine (encodePacket .handover)) = .ok .handover ∧
      Outbound.redirect.payload.Sendable ∧
      decodeLine decodeOutbound (encodeLine (encodeOutbound .redirect)) = .ok .redirect := by
  have hread : ∀ x ∈ Packet.handover.payload.doubles, Json.ReadsBack x := by
    change ∀ x ∈ [(0.25 : Float), 0.25, 0.0, 0.0, 0.5, 0.5], Json.ReadsBack x
    simp only [List.forall_mem_cons]
    exact ⟨rfl, rfl, rfl, rfl, rfl, rfl, nofun⟩
  refine ⟨Packet.sendable_handover, ?_, Outbound.sendable_redirect, ?_⟩
  · exact decodeLine_encodeLine.1 _ Packet.sendable_handover fun x hx _ => hread x hx
  · exact decodeLine_encodeLine.2 _ Outbound.sendable_redirect (by decide) nofun

end Geocast
