import Geocast.Broker
import Geocast.Log.Severity
import Geocast.Strategy

/-!
# The protocol

`process` answers one packet: it gives the new state of the broker, the packets to send, and what is
to be logged. It never fails; what the protocol does not allow is answered with a reason.

Under both strategies a connected client that connects again is cut off, and a publication goes to
every receiver before it is acknowledged. Under `Strategy.geoDistributed` clients are served only
inside the home area and are else sent to the broker of their area, and a publication is forwarded
to every peer whose area its geofence meets; a forwarded publication is matched here and
acknowledged to the peer that sent it.
-/
namespace Geocast

structure Outcome where
  broker : Broker
  out : List Outbound
  log : List LogRecord

namespace Protocol

def toClient (id : ClientId) (payload : Payload) : Outbound := ⟨.client id, payload⟩

/-- A log record for following what happens. -/
def debug (text : String) : LogRecord := ⟨.debug, text⟩

/-- A log record that tells of a client's fault or change. -/
def notice (text : String) : LogRecord := ⟨.info, text⟩

/-- A log record that tells of something odd. -/
def warning (text : String) : LogRecord := ⟨.warning, text⟩

/-! ## Clients -/

/-- A client connects; one that is connected already is cut off. -/
def connect (b : Broker) (id : ClientId) (location : Location) : Outcome :=
  match b.sessions.connect? id location with
  | some sessions =>
    ⟨{ b with sessions := sessions }, [toClient id (.connack .success)],
      [debug (id ++ " connected at " ++ location.display)]⟩
  | none =>
    ⟨b.remove id, [toClient id (.disconnect .protocolError none)],
      [notice (id ++ " is already connected, protocol error")]⟩

def disconnect (b : Broker) (id : ClientId) (reason : Reason) : Outcome :=
  match b.remove? id with
  | some b => ⟨b, [], [debug (id ++ " disconnected, reason: " ++ reason.name)]⟩
  | none => ⟨b, [], [debug (id ++ " is not connected, disconnect ignored")]⟩

/-- A client says where it is. -/
def ping (b : Broker) (id : ClientId) (location : Location) : Outcome :=
  match b.sessions.move? id location with
  | some sessions =>
    ⟨{ b with sessions := sessions }, [toClient id (.pingresp .locationUpdated)], []⟩
  | none => ⟨b, [toClient id (.pingresp .notConnected)], []⟩

/-- A client that is outside the home area is sent to the broker of its area, if there is one. -/
def redirect (b : Broker) (id : ClientId) (location : Location) : Outbound × LogRecord :=
  let peer := b.federation.peerAt? location
  (toClient id (.disconnect .wrongBroker peer),
    match peer with
    | some info => debug (id ++ " at " ++ location.display ++ " belongs to broker " ++ info.display)
    | none => warning (id ++ " at " ++ location.display ++ " is outside every broker area"))

/-- A client connects to a broker of a federation. -/
def connectAtHome (b : Broker) (id : ClientId) (location : Location) : Outcome :=
  if b.federation.isHome location then connect b id location
  else
    let (out, record) := redirect b id location
    ⟨b, [out], [record]⟩

/-- A client of a broker of a federation says where it is; outside the home area it is evicted. -/
def pingAtHome (b : Broker) (id : ClientId) (location : Location) : Outcome :=
  if b.federation.isHome location then ping b id location
  else
    let (out, record) := redirect b id location
    match b.remove? id with
    | some b => ⟨b, [out], [notice (id ++ " left the broker area, evicted"), record]⟩
    | none => ⟨b, [out], [record]⟩

/-! ## Subscriptions -/

def subscribe (b : Broker) (id : ClientId) (topic : Topic) (geofence : Geofence) : Outcome :=
  match b.subscribe? id topic geofence with
  | some (b, sub) =>
    ⟨b, [toClient id (.suback .grantedQoS0)],
      [debug (id ++ " subscribed to " ++ topic.display ++ ", subscription id: " ++ sub.display)]⟩
  | none => ⟨b, [toClient id (.suback .notConnected)], []⟩

def unsubscribe (b : Broker) (id : ClientId) (topic : Topic) : Outcome :=
  match b.unsubscribe? id topic with
  | some b => ⟨b, [toClient id (.unsuback .success)], []⟩
  | none => ⟨b, [toClient id (.unsuback .noSubscriptionExisted)], []⟩

/-! ## Publications -/

/-- A copy of a publication for every receiver. -/
def deliver (b : Broker) (publication : Publication) (publisher : Location) : List Outbound :=
  (b.receivers publication publisher).map fun id => toClient id (.publish publication)

/-- A client publishes. Copies and forwards are what the strategy makes of a publication that the
protocol allows, at the location of the publisher; `report` is what is logged of their numbers. -/
def publishWith (b : Broker) (id : ClientId) (publication : Publication)
    (copies forwards : Location → List Outbound) (report : Nat → Nat → String) : Outcome :=
  match b.sessions.location? id with
  | none => ⟨b, [toClient id (.puback .notConnected)], []⟩
  | some location =>
    if !publication.topic.isName then
      ⟨b, [toClient id (.puback .protocolError)],
        [notice (id ++ " publish to topic filter " ++ publication.topic.display ++
          ", protocol error")]⟩
    else
      let delivered := copies location
      let forwarded := forwards location
      let reason : Reason :=
        if !delivered.isEmpty then .success
        else if !forwarded.isEmpty then .noMatchingSubscribersButForwarded
        else .noMatchingSubscribers
      ⟨b, delivered ++ forwarded ++ [toClient id (.puback reason)],
        [debug (id ++ " publish on " ++ publication.topic.display ++
          report delivered.length forwarded.length)]⟩

/-- A client publishes at a broker that works alone. -/
def publish (b : Broker) (id : ClientId) (publication : Publication) : Outcome :=
  publishWith b id publication (deliver b publication) (fun _ => [])
    fun delivered _ => ", delivered: " ++ toString delivered

/-- A copy of a publication for every peer whose area its geofence meets. -/
def forwardToPeers (b : Broker) (publication : Publication) (publisher : Location) :
    List Outbound :=
  (b.federation.peersMeeting publication.geofence).map fun info =>
    ⟨.broker info, .forward publication publisher⟩

/-- A client publishes at a broker of a federation. Its own clients are looked at only if the home
area meets the geofence. -/
def publishAtHome (b : Broker) (id : ClientId) (publication : Publication) : Outcome :=
  publishWith b id publication
    (fun location =>
      if b.federation.homeMeets publication.geofence then deliver b publication location else [])
    (forwardToPeers b publication)
    fun delivered forwarded =>
      ", delivered: " ++ toString delivered ++ ", forwarded: " ++ toString forwarded

/-- A peer forwards a publication of one of its clients. It is acknowledged if the peer is known. -/
def receiveForward (b : Broker) (sender : String) (publication : Publication)
    (publisher : Location) : Outcome :=
  let delivered := deliver b publication publisher
  let reason : Reason := if delivered.isEmpty then .noMatchingSubscribers else .success
  let record := debug ("forwarded publish on " ++ publication.topic.display ++ " from broker " ++
    sender ++ ", delivered: " ++ toString delivered.length)
  match b.federation.peer? sender with
  | some info => ⟨b, delivered ++ [⟨.broker info, .puback reason⟩], [record]⟩
  | none =>
    ⟨b, delivered,
      [record, warning ("forwarded publish from unknown broker " ++ sender ++
        ", acknowledgement dropped")]⟩

/-- An acknowledgement that nobody waits for. -/
def drop (b : Broker) (p : Packet) : Outcome :=
  ⟨b, [], [warning (p.sender ++ " unexpected inbound packet " ++ p.payload.kind ++ ", dropped")]⟩

end Protocol

open Protocol

def process (strategy : Strategy) (b : Broker) (p : Packet) : Outcome :=
  match p.payload with
  | .connect location =>
    match strategy with
    | .standalone => connect b p.sender location
    | .geoDistributed => connectAtHome b p.sender location
  | .disconnect reason _ => disconnect b p.sender reason
  | .pingreq location =>
    match strategy with
    | .standalone => ping b p.sender location
    | .geoDistributed => pingAtHome b p.sender location
  | .subscribe topic geofence => subscribe b p.sender topic geofence
  | .unsubscribe topic => unsubscribe b p.sender topic
  | .publish publication =>
    match strategy with
    | .standalone => publish b p.sender publication
    | .geoDistributed => publishAtHome b p.sender publication
  | .forward publication publisher => receiveForward b p.sender publication publisher
  | .connack _ | .pingresp _ | .suback _ | .unsuback _ | .puback _ => drop b p

/-- The state of a broker after a sequence of packets. -/
def processAll (strategy : Strategy) (b : Broker) (ps : List Packet) : Broker :=
  ps.foldl (fun b p => (process strategy b p).broker) b

end Geocast
