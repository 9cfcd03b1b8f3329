import Geocast.Geofence.Relations
import Geocast.Topic

/-!
# Subscriptions

A subscription joins a topic filter with the geofence from which publications are wanted. Its id is
the client's id and a number that the client's session hands out.
-/
namespace Geocast

abbrev ClientId := String

structure SubscriptionId where
  client : ClientId
  seq : Nat
  deriving DecidableEq, Repr

namespace SubscriptionId

/-- The text of an id, `client-seq`. -/
def display (id : SubscriptionId) : String := id.client ++ "-" ++ Decimal.digitsText id.seq

/-- Ids by client, then by number. -/
def order (a b : SubscriptionId) : Ordering :=
  (compare a.client b.client).then (compare a.seq b.seq)

end SubscriptionId

structure Subscription where
  id : SubscriptionId
  topic : Topic
  geofence : Geofence

end Geocast
