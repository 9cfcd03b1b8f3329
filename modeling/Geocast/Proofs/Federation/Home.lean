import Geocast.Proofs.Protocol.Changes

/-!
# Clients of a federated broker are in its area

A broker of a federation takes a client in only inside the home area, and evicts it when it says
that it has left. So whoever is connected was last seen inside.

* `AtHome`: every connected client is in the home area.
* `atHome_processAll`: it holds after every sequence of packets.
-/
namespace Geocast

theorem federation_processAll (strategy : Strategy) (b : Broker) (ps : List Packet) :
    (processAll strategy b ps).federation = b.federation :=
  processAll_induction (fun _ => True) (fun b' => b'.federation = b.federation)
    (fun _ h hchange => (Protocol.federation_change hchange).trans h) rfl fun _ _ => trivial

namespace Broker

/-- Every connected client is in the home area. -/
def AtHome (b : Broker) : Prop :=
  ∀ client session, b.sessions.get? client = some session →
    b.federation.isHome session.location = true

theorem atHome_start (granularity : Nat) (federation : Federation) :
    (start granularity federation).AtHome := by
  intro client session h
  rw [start, Sessions.get?_empty] at h
  cases h

theorem atHome_change {b b' : Broker} {p : Packet} (h : b.AtHome)
    (hchange : Protocol.Change .geoDistributed b p b') : b'.AtHome := by
  have hfederation := Protocol.federation_change hchange
  have hsubscribe : ∀ topic geofence (session : Session),
      (session.subscribe topic geofence).1.location = session.location := by
    intro topic geofence session
    rw [Session.subscribe]
    split <;> rfl
  rw [AtHome, hfederation]
  refine sessions_change hchange h (fun _ served => served) (fun _ _ served _ => served) ?_
    fun _ _ hold => hold
  intro topic geofence session _ hold
  rw [hsubscribe]
  exact hold

theorem atHome_processAll (granularity : Nat) (federation : Federation) (ps : List Packet) :
    (processAll .geoDistributed (start granularity federation) ps).AtHome :=
  processAll_induction (fun _ => True) AtHome (fun _ h hchange => atHome_change h hchange)
    (atHome_start granularity federation) fun _ _ => trivial

end Broker

end Geocast
