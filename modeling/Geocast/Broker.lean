import Geocast.FilterTree
import Geocast.Federation
import Geocast.Sessions

/-!
# The state of a broker

Who is connected, which subscriptions are entered where, and which area the broker serves. The grid
of a filter's node holds exactly the subscriptions to that filter, each in the cells of its current
geofence; `remove`, `subscribe` and `unsubscribe` keep sessions and grids together.

`receivers` finds whom a publication concerns: the tree gives the filters that match its topic, the
grids give the subscriptions near the publisher, and both geofences are then tested exactly. A
client that comes up again after it was found is passed over.
-/
namespace Geocast

structure Broker where
  federation : Federation
  sessions : Sessions
  filters : FilterTree

namespace Broker

def start (granularity : Nat) (federation : Federation) : Broker :=
  ⟨federation, .empty, .empty granularity⟩

def info (b : Broker) : BrokerInfo := b.federation.home.info

/-! ## Changes -/

/-- Takes a subscription out of the grid of its filter. -/
def withdraw (filters : FilterTree) (sub : Subscription) : FilterTree :=
  filters.modify sub.topic fun grid => grid.erase sub.id sub.geofence.box

/-- Ends the session of a client, with all its subscriptions; none when it is not connected. -/
def remove? (b : Broker) (id : ClientId) : Option Broker :=
  (b.sessions.get? id).map fun session =>
    { b with
      sessions := b.sessions.remove id
      filters := session.subscriptions.foldl withdraw b.filters }

def remove (b : Broker) (id : ClientId) : Broker := (b.remove? id).getD b

/-- Subscribes a client to a filter, or moves its subscription to another geofence; none when it is
not connected. -/
def subscribe? (b : Broker) (id : ClientId) (topic : Topic) (geofence : Geofence) :
    Option (Broker × SubscriptionId) :=
  (b.sessions.subscribe? id topic geofence).map fun (sessions, sub) =>
    let enter (grid : Grid) : Grid :=
      let grid :=
        match b.sessions.subscription? id topic with
        | some old => grid.erase old.id old.geofence.box
        | none => grid
      grid.insert sub geofence.box
    ({ b with sessions := sessions, filters := b.filters.create topic enter }, sub)

def unsubscribe? (b : Broker) (id : ClientId) (topic : Topic) : Option Broker :=
  (b.sessions.subscription? id topic).map fun sub =>
    { b with
      sessions := b.sessions.unsubscribe id topic
      filters := withdraw b.filters sub }

/-! ## Matching -/

/-- Whether a subscription found in the grid of a node is wanted: it is the client's current one to
that filter, the client is inside the publication's geofence, and the publisher inside the
subscription's. -/
def wants (b : Broker) (publication : Publication) (publisher : Location) (filter : Topic)
    (id : SubscriptionId) : Bool :=
  match b.sessions.get? id.client with
  | none => false
  | some session =>
    match session.find? filter with
    | none => false
    | some sub =>
      sub.id = id && publication.geofence.contains session.location &&
        sub.geofence.contains publisher

/-- The receivers that were found so far: a set to look clients up in, and the list that is given,
in the order in which they were found. -/
structure Found where
  seen : Std.TreeSet ClientId
  clients : List ClientId

/-- Looks at a subscription in the grid of a node. A client that was found already is passed over
without a further look; another is found if the subscription is wanted. -/
def consider (b : Broker) (publication : Publication) (publisher : Location) (filter : Topic)
    (found : Found) (id : SubscriptionId) : Found :=
  if found.seen.contains id.client then found
  else if b.wants publication publisher filter id then
    ⟨found.seen.insert id.client, found.clients ++ [id.client]⟩
  else found

/-- Looks at the subscriptions near the publisher in the grid of a node. -/
def considerNode (b : Broker) (publication : Publication) (publisher : Location) (found : Found)
    (n : Node) : Found :=
  (n.grid.lookup publisher).foldl (b.consider publication publisher n.filter) found

/-- The clients that receive a publication made at a location, in the order in which they are
found. -/
def receivers (b : Broker) (publication : Publication) (publisher : Location) : List ClientId :=
  ((b.filters.matching publication.topic).foldl (b.considerNode publication publisher)
    ⟨∅, []⟩).clients

def summary (b : Broker) : String :=
  "BrokerContext \x7b broker: " ++ b.info.display ++ ", clients: " ++ toString b.sessions.size ++
    ", topic nodes: " ++ toString b.filters.size ++ " \x7d"

end Broker

end Geocast
