import Geocast.Subscription

/-!
# Packets

What clients and brokers send to a broker, and what a broker sends back. Every packet has one of
twelve payloads; acknowledgements carry a reason.
-/
namespace Geocast

structure BrokerInfo where
  id : String
  address : String
  port : Nat
  deriving DecidableEq, Repr

/-- The text of a broker, `id@address:port`. -/
def BrokerInfo.display (b : BrokerInfo) : String :=
  b.id ++ "@" ++ b.address ++ ":" ++ Decimal.digitsText b.port

/-- What an acknowledgement says. -/
inductive Reason where
  | success
  | normalDisconnection
  | grantedQoS0
  | noMatchingSubscribers
  | noMatchingSubscribersButForwarded
  | noSubscriptionExisted
  | locationUpdated
  | protocolError
  | notConnected
  | wrongBroker
  deriving DecidableEq, Repr

namespace Reason

def name : Reason → String
  | success => "Success"
  | normalDisconnection => "NormalDisconnection"
  | grantedQoS0 => "GrantedQoS0"
  | noMatchingSubscribers => "NoMatchingSubscribers"
  | noMatchingSubscribersButForwarded => "NoMatchingSubscribersButForwarded"
  | noSubscriptionExisted => "NoSubscriptionExisted"
  | locationUpdated => "LocationUpdated"
  | protocolError => "ProtocolError"
  | notConnected => "NotConnected"
  | wrongBroker => "WrongBroker"

def all : List Reason :=
  [success, normalDisconnection, grantedQoS0, noMatchingSubscribers,
    noMatchingSubscribersButForwarded, noSubscriptionExisted, locationUpdated, protocolError,
    notConnected, wrongBroker]

end Reason

/-- A message to the clients inside a geofence that subscribe to a topic. -/
structure Publication where
  topic : Topic
  geofence : Geofence
  content : String

inductive Payload where
  | connect (location : Location)
  | connack (reason : Reason)
  | disconnect (reason : Reason) (broker : Option BrokerInfo)
  | pingreq (location : Location)
  | pingresp (reason : Reason)
  | subscribe (topic : Topic) (geofence : Geofence)
  | suback (reason : Reason)
  | unsubscribe (topic : Topic)
  | unsuback (reason : Reason)
  | publish (publication : Publication)
  | puback (reason : Reason)
  | forward (publication : Publication) (publisher : Location)

namespace Payload

def kind : Payload → String
  | connect _ => "CONNECT"
  | connack _ => "CONNACK"
  | disconnect _ _ => "DISCONNECT"
  | pingreq _ => "PINGREQ"
  | pingresp _ => "PINGRESP"
  | subscribe _ _ => "SUBSCRIBE"
  | suback _ => "SUBACK"
  | unsubscribe _ => "UNSUBSCRIBE"
  | unsuback _ => "UNSUBACK"
  | publish _ => "PUBLISH"
  | puback _ => "PUBACK"
  | forward _ _ => "BROKER_FORWARD_PUBLISH"

def reason? : Payload → Option Reason
  | connack reason | disconnect reason _ | pingresp reason | suback reason | unsuback reason
  | puback reason => some reason
  | _ => none

end Payload

/-- A packet that a broker receives. The sender of a forwarded publication is the id of a broker,
that of all others the id of a client. -/
structure Packet where
  sender : ClientId
  payload : Payload

inductive Addressee where
  | client (id : ClientId)
  | broker (info : BrokerInfo)
  deriving DecidableEq, Repr

structure Outbound where
  recipient : Addressee
  payload : Payload

end Geocast
