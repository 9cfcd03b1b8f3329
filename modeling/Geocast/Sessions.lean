import Std.Data.TreeMap
import Geocast.Subscription

/-!
# Sessions of connected clients

A session begins when a client connects and ends when it disconnects or is evicted. It knows where
the client is and what it has subscribed to. Numbers of subscriptions are handed out in order and
never twice within a session; subscribing again to a topic keeps the number.
-/
namespace Geocast

/-- A connected client. Subscriptions are in the order of their numbers, one for each topic. -/
structure Session where
  client : ClientId
  location : Location
  nextSeq : Nat
  subscriptions : List Subscription

namespace Session

def start (client : ClientId) (location : Location) : Session := ⟨client, location, 0, []⟩

def find? (s : Session) (topic : Topic) : Option Subscription :=
  s.subscriptions.find? fun sub => sub.topic = topic

/-- Subscribes to a topic, or replaces the geofence of the subscription to it; gives the id. -/
def subscribe (s : Session) (topic : Topic) (geofence : Geofence) : Session × SubscriptionId :=
  match s.find? topic with
  | some old =>
    ({ s with
        subscriptions := s.subscriptions.map fun sub =>
          if sub.topic = topic then { sub with geofence := geofence } else sub },
      old.id)
  | none =>
    let id : SubscriptionId := ⟨s.client, s.nextSeq⟩
    ({ s with
        nextSeq := s.nextSeq + 1
        subscriptions := s.subscriptions ++ [⟨id, topic, geofence⟩] },
      id)

def unsubscribe (s : Session) (topic : Topic) : Session :=
  { s with subscriptions := s.subscriptions.filter fun sub => sub.topic ≠ topic }

/-- One line about the session, with the time of the last sign of life as given. -/
def summary (s : Session) (heartbeat : String) : String :=
  "Client \x7b id: " ++ s.client ++ ", location: " ++ s.location.display ++ ", heartbeat: " ++
    heartbeat ++ ", subscriptions: " ++ toString s.subscriptions.length ++ " \x7d"

end Session

structure Sessions where
  byClient : Std.TreeMap ClientId Session

namespace Sessions

def empty : Sessions := ⟨∅⟩

def get? (s : Sessions) (id : ClientId) : Option Session := s.byClient[id]?

def isConnected (s : Sessions) (id : ClientId) : Bool := s.byClient.contains id

def put (s : Sessions) (session : Session) : Sessions :=
  ⟨s.byClient.insert session.client session⟩

/-- Begins a session; none when there is one already. -/
def connect? (s : Sessions) (id : ClientId) (location : Location) : Option Sessions :=
  if s.isConnected id then none else some (s.put (.start id location))

def remove (s : Sessions) (id : ClientId) : Sessions := ⟨s.byClient.erase id⟩

/-- Moves a client; none when it is not connected. -/
def move? (s : Sessions) (id : ClientId) (location : Location) : Option Sessions :=
  (s.get? id).map fun session => s.put { session with location := location }

def location? (s : Sessions) (id : ClientId) : Option Location := (s.get? id).map (·.location)

def subscription? (s : Sessions) (id : ClientId) (topic : Topic) : Option Subscription :=
  (s.get? id).bind (·.find? topic)

/-- Subscribes a client to a topic; none when it is not connected. -/
def subscribe? (s : Sessions) (id : ClientId) (topic : Topic) (geofence : Geofence) :
    Option (Sessions × SubscriptionId) :=
  (s.get? id).map fun session =>
    let (session, sub) := session.subscribe topic geofence
    (s.put session, sub)

def unsubscribe (s : Sessions) (id : ClientId) (topic : Topic) : Sessions :=
  match s.get? id with
  | some session => s.put (session.unsubscribe topic)
  | none => s

def size (s : Sessions) : Nat := s.byClient.size

def subscriptionCount (s : Sessions) : Nat :=
  s.byClient.values.foldr (fun session n => session.subscriptions.length + n) 0

def summary (s : Sessions) : String :=
  "ClientDirectory \x7b clients: " ++ toString s.size ++ " \x7d"

end Sessions

end Geocast
