import Geocast.Proofs.Broker.Delivery
import Geocast.Proofs.Federation.Home
import Geocast.Proofs.Protocol.Sent

/-!
# Whom a federated broker sends copies to

A broker sends copies of a publication for two reasons: a client of its own publishes, or a peer
forwards. Both times the receivers are found in the same way, among the clients that are connected
and inside the publication's geofence. Under `Strategy.geoDistributed` whoever is connected is also
inside the home area, so a publication that misses the home area can be passed over.

* `received_of_copy`: every copy that a packet makes a broker send goes to a receiver of the
  publication, and the packet changes nothing.
* `Broker.location_of_mem_receivers`: a receiver is connected and inside the publication's geofence.
* `copies_go_inside`: after every sequence of packets a federated broker has clients inside its area
  only, and sends copies only there.
-/
namespace Geocast

theorem Broker.location_of_mem_receivers {b : Broker} {publication : Publication}
    {publisher : Location} {client : ClientId}
    (h : client ∈ b.receivers publication publisher) :
    ∃ session, b.sessions.get? client = some session ∧
      publication.geofence.contains session.location = true := by
  obtain ⟨n, -, id, -, hwants, rfl⟩ := mem_receivers_iff.1 h
  obtain ⟨session, -, hsession, -, -, hinside, -⟩ := wants_iff.1 hwants
  exact ⟨session, hsession, hinside⟩

namespace Protocol

variable {strategy : Strategy} {b : Broker} {p : Packet} {client : ClientId}
  {publication : Publication}

theorem received_of_publish {id : ClientId} {published : Publication}
    (h : toClient client (.publish publication) ∈
      (process strategy b ⟨id, .publish published⟩).out) :
    ∃ publisher, client ∈ b.receivers publication publisher := by
  cases hlocation : b.sessions.location? id with
  | none =>
    rw [out_publish_absent strategy published hlocation, List.mem_singleton] at h
    cases h
  | some publisher =>
    cases hname : published.topic.isName with
    | false =>
      rw [out_publish_filter strategy hlocation hname, List.mem_singleton] at h
      cases h
    | true =>
      rw [out_publish_name strategy hlocation hname] at h
      simp only [List.mem_append, List.mem_singleton] at h
      rcases h with (h | h) | h
      · obtain ⟨c, hc, hcopy⟩ := mem_deliver.1 (mem_deliver_of_mem_copies h)
        cases hcopy
        exact ⟨publisher, hc⟩
      · obtain ⟨info, hforward⟩ := eq_of_mem_forwards h
        cases hforward
      · cases h

/-- A copy goes to a receiver of the publication, whoever published it, and sending it changes
nothing. -/
theorem received_of_copy (h : toClient client (.publish publication) ∈ (process strategy b p).out) :
    (∃ publisher, client ∈ b.receivers publication publisher) ∧
      (process strategy b p).broker = b := by
  generalize ho : toClient client (.publish publication) = o at h
  cases sent_process strategy h with
  | reply _ reason => cases ho; cases reason
  | acknowledgement => cases ho
  | copy payload =>
    obtain ⟨id, _⟩ := p
    cases payload
    cases ho
    exact ⟨received_of_publish h, broker_publish strategy b id _⟩
  | forward => cases ho
  | relay payload received =>
    obtain ⟨id, _⟩ := p
    cases payload
    cases ho
    exact ⟨⟨_, received⟩, broker_receiveForward b id _ _⟩

/-- After every sequence of packets a broker of a federation has clients inside its home area only.
Every copy of a publication that it sends for the next packet, be it published here or forwarded by
a peer, goes to a client that is connected, before and after, at a place inside the home area and
inside the publication's geofence. -/
theorem copies_go_inside (granularity : Nat) (federation : Federation) (ps : List Packet) :
    let b := processAll .geoDistributed (.start granularity federation) ps
    (∀ client session, b.sessions.get? client = some session →
      federation.home.fence.contains session.location = true) ∧
    ∀ (p : Packet) (client : ClientId) (publication : Publication),
      ⟨.client client, .publish publication⟩ ∈ (process .geoDistributed b p).out →
        ∃ location, b.sessions.location? client = some location ∧
          (process .geoDistributed b p).broker.sessions.location? client = some location ∧
          federation.home.fence.contains location = true ∧
          publication.geofence.contains location = true := by
  intro b
  have hfederation : b.federation = federation := federation_processAll .geoDistributed _ ps
  have hhome : ∀ client session, b.sessions.get? client = some session →
      federation.home.fence.contains session.location = true := by
    intro client session hsession
    rw [← hfederation]
    exact Broker.atHome_processAll granularity federation ps client session hsession
  refine ⟨hhome, fun p client publication hcopy => ?_⟩
  obtain ⟨⟨publisher, hreceiver⟩, hsame⟩ := received_of_copy hcopy
  obtain ⟨session, hsession, hinside⟩ := Broker.location_of_mem_receivers hreceiver
  have hlocation : b.sessions.location? client = some session.location := by
    rw [Sessions.location?, hsession]
    rfl
  refine ⟨session.location, hlocation, ?_, hhome client session hsession, hinside⟩
  rw [hsame]
  exact hlocation

/-- What a peer forwards to the home of a visitor goes to it, and it is inside. -/
theorem copies_go_inside_visitor :
    let f : Federation := ⟨⟨⟨"b", "h", 1⟩, .nearOrigin⟩, [⟨⟨"peer", "h", 2⟩, .world⟩]⟩
    let b := processAll .geoDistributed (.start 1 f) (Packet.visit "x" ⟨0.1, 0.1⟩)
    let publication : Publication := ⟨⟨[.normal "a"]⟩, .nearOrigin, "news"⟩
    ⟨.client "x", .publish publication⟩ ∈
        (process .geoDistributed b ⟨"peer", .forward publication ⟨0.2, 0.2⟩⟩).out ∧
      ∃ location, b.sessions.location? "x" = some location ∧
        f.home.fence.contains location = true := by
  intro f b publication
  have hreceivers : b.receivers publication ⟨0.2, 0.2⟩ = ["x"] := by decide +kernel
  have hcopy : ⟨.client "x", .publish publication⟩ ∈
      (process .geoDistributed b ⟨"peer", .forward publication ⟨0.2, 0.2⟩⟩).out := by
    rw [out_forward, List.mem_append]
    refine .inl (mem_deliver.2 ⟨"x", ?_, rfl⟩)
    rw [hreceivers]
    exact List.mem_singleton_self "x"
  obtain ⟨location, hlocation, -, hhome, -⟩ :=
    (copies_go_inside 1 f (Packet.visit "x" ⟨0.1, 0.1⟩)).2 _ _ _ hcopy
  exact ⟨hcopy, location, hlocation, hhome⟩

end Protocol

end Geocast
