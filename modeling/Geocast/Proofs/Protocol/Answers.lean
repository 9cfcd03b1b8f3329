import Geocast.Proofs.Federation.Delivery
import Geocast.Proofs.Protocol.Sent

/-!
# How every packet is answered

The protocol promises an answer to most packets, and the answer tells the sender how the broker
stands to it: whether it is connected, whether there was a subscription to end, whether a
publication found anybody. Here all that is sent for a packet is told for each of the twelve kinds
of payload, by what the sender has at the broker.

* `Subscribed`: a client has a subscription to exactly that filter.
* `PublishAnswer`, `ForwardAnswer`: who gets a publication, and what its acknowledgement says.
* `Answers`: all that is sent for a payload of a sender, one rule for each kind.
* `answers_process`: a broker answers so whatever its state; `every_packet_answered`: after every
  sequence of packets, and peers are told of publications in the order of the area list.
-/
namespace Geocast

/-- A client is connected and has a subscription to that very filter. -/
def Broker.Subscribed (b : Broker) (client : ClientId) (topic : Topic) : Prop :=
  ∃ session, b.sessions.get? client = some session ∧
    ∃ sub ∈ session.subscriptions, sub.topic = topic

namespace Protocol

/-- Copies of a publication, one to each receiver. -/
def copiesTo (receivers : List ClientId) (publication : Publication) : List Outbound :=
  receivers.map fun c => ⟨.client c, .publish publication⟩

/-- Forwards of a publication: under `Strategy.geoDistributed` one to each peer whose area meets its
geofence, in the order of the peers. -/
def forwardsOf (f : Federation) (publication : Publication) (publisher : Location) :
    Strategy → List Outbound
  | .standalone => []
  | .geoDistributed =>
    (f.peers.filter fun peer => peer.fence.intersects publication.geofence).map fun peer =>
      ⟨.broker peer.info, .forward publication publisher⟩

/-- The client is connected and publishes to a name. -/
def MayPublish (b : Broker) (id : ClientId) (publication : Publication) : Prop :=
  b.sessions.isConnected id = true ∧ publication.topic.isName = true

/-- What the parts of the answer to a publication of a client are. -/
structure PublishAnswer (strategy : Strategy) (b : Broker) (id : ClientId)
    (publication : Publication) (receivers : List ClientId) (forwards : List Outbound)
    (reason : Reason) : Prop where
  nodup : receivers.Nodup
  connected : ∀ c ∈ receivers, b.sessions.isConnected c = true
  refused : ¬ MayPublish b id publication → receivers = [] ∧ forwards = []
  forwarded : ∀ publisher, b.sessions.location? id = some publisher →
    publication.topic.isName = true →
      forwards = forwardsOf b.federation publication publisher strategy
  absent_iff : reason = .notConnected ↔ b.sessions.isConnected id = false
  filter_iff : reason = .protocolError ↔
    b.sessions.isConnected id = true ∧ publication.topic.isName = false
  success_iff : reason = .success ↔ MayPublish b id publication ∧ receivers ≠ []
  forwarded_iff : reason = .noMatchingSubscribersButForwarded ↔
    MayPublish b id publication ∧ receivers = [] ∧ forwards ≠ []
  unmatched_iff : reason = .noMatchingSubscribers ↔
    MayPublish b id publication ∧ receivers = [] ∧ forwards = []

/-- What the parts of the answer to a forwarded publication are. -/
structure ForwardAnswer (b : Broker) (receivers : List ClientId) (reason : Reason) : Prop where
  nodup : receivers.Nodup
  connected : ∀ c ∈ receivers, b.sessions.isConnected c = true
  success_iff : reason = .success ↔ receivers ≠ []
  unmatched_iff : reason = .noMatchingSubscribers ↔ receivers = []

/-- All that is sent for a payload of a sender. -/
inductive Answers (strategy : Strategy) (b : Broker) (id : ClientId) :
    Payload → List Outbound → Prop
  | connect {location : Location} {payload : Payload}
      (accepted_iff : payload = .connack .success ↔
        serves strategy b.federation location = true ∧ b.sessions.isConnected id = false)
      (twice_iff : payload = .disconnect .protocolError none ↔
        serves strategy b.federation location = true ∧ b.sessions.isConnected id = true)
      (elsewhere_iff : payload = .disconnect .wrongBroker (b.federation.peerAt? location) ↔
        serves strategy b.federation location = false) :
      Answers strategy b id (.connect location) [toClient id payload]
  | pingreq {location : Location} {payload : Payload}
      (moved_iff : payload = .pingresp .locationUpdated ↔
        serves strategy b.federation location = true ∧ b.sessions.isConnected id = true)
      (absent_iff : payload = .pingresp .notConnected ↔
        serves strategy b.federation location = true ∧ b.sessions.isConnected id = false)
      (elsewhere_iff : payload = .disconnect .wrongBroker (b.federation.peerAt? location) ↔
        serves strategy b.federation location = false) :
      Answers strategy b id (.pingreq location) [toClient id payload]
  | subscribe {topic : Topic} {geofence : Geofence} {reason : Reason}
      (granted_iff : reason = .grantedQoS0 ↔ b.sessions.isConnected id = true)
      (absent_iff : reason = .notConnected ↔ b.sessions.isConnected id = false) :
      Answers strategy b id (.subscribe topic geofence) [toClient id (.suback reason)]
  | unsubscribe {topic : Topic} {reason : Reason}
      (success_iff : reason = .success ↔ b.Subscribed id topic)
      (nothing_iff : reason = .noSubscriptionExisted ↔ ¬ b.Subscribed id topic) :
      Answers strategy b id (.unsubscribe topic) [toClient id (.unsuback reason)]
  | publish {publication : Publication} {receivers : List ClientId} {forwards : List Outbound}
      {reason : Reason}
      (answer : PublishAnswer strategy b id publication receivers forwards reason) :
      Answers strategy b id (.publish publication)
        (copiesTo receivers publication ++ forwards ++ [toClient id (.puback reason)])
  | forward {publication : Publication} {publisher : Location} {receivers : List ClientId}
      {reason : Reason} (answer : ForwardAnswer b receivers reason) :
      Answers strategy b id (.forward publication publisher)
        (copiesTo receivers publication ++
          ((b.federation.peer? id).map fun info => ⟨.broker info, .puback reason⟩).toList)
  | disconnect {reason : Reason} {broker : Option BrokerInfo} :
      Answers strategy b id (.disconnect reason broker) []
  | connack {reason : Reason} : Answers strategy b id (.connack reason) []
  | pingresp {reason : Reason} : Answers strategy b id (.pingresp reason) []
  | suback {reason : Reason} : Answers strategy b id (.suback reason) []
  | unsuback {reason : Reason} : Answers strategy b id (.unsuback reason) []
  | puback {reason : Reason} : Answers strategy b id (.puback reason) []

variable {strategy : Strategy} {b : Broker} {id : ClientId} {publication : Publication}
  {publisher : Location}

/-! ## Replies to the sender -/

theorem isSome_location? (b : Broker) (id : ClientId) :
    (b.sessions.location? id).isSome = b.sessions.isConnected id := by
  rw [Sessions.location?, Option.isSome_map, Sessions.isConnected_eq]

theorem subscribed_iff (b : Broker) (id : ClientId) (topic : Topic) :
    b.Subscribed id topic ↔ ((b.sessions.get? id).bind (·.find? topic)).isSome = true := by
  cases hsession : b.sessions.get? id with
  | none => simp [Broker.Subscribed, hsession]
  | some session => simp [Broker.Subscribed, hsession, Session.find?]

theorem answers_connect (strategy : Strategy) (b : Broker) (id : ClientId) (location : Location) :
    Answers strategy b id (.connect location)
      (process strategy b ⟨id, .connect location⟩).out := by
  rw [out_process strategy b rfl]
  dsimp only [reply]
  split
  next hserved =>
    split
    next hsession =>
      refine .connect ?_ ?_ ?_ <;> simp [hserved, Sessions.isConnected_eq, hsession]
    next session hsession =>
      refine .connect ?_ ?_ ?_ <;> simp [hserved, Sessions.isConnected_eq, hsession]
  next haway => refine .connect ?_ ?_ ?_ <;> simp [haway]

theorem answers_pingreq (strategy : Strategy) (b : Broker) (id : ClientId) (location : Location) :
    Answers strategy b id (.pingreq location)
      (process strategy b ⟨id, .pingreq location⟩).out := by
  rw [out_process strategy b rfl]
  dsimp only [reply]
  rw [← Sessions.isConnected_eq]
  split
  next hserved =>
    split
    next hconnected => refine .pingreq ?_ ?_ ?_ <;> simp [hserved, hconnected]
    next habsent => refine .pingreq ?_ ?_ ?_ <;> simp [hserved, habsent]
  next haway => refine .pingreq ?_ ?_ ?_ <;> simp [haway]

theorem answers_subscribe (strategy : Strategy) (b : Broker) (id : ClientId) (topic : Topic)
    (geofence : Geofence) :
    Answers strategy b id (.subscribe topic geofence)
      (process strategy b ⟨id, .subscribe topic geofence⟩).out := by
  rw [out_process strategy b rfl]
  dsimp only [reply]
  rw [← Sessions.isConnected_eq]
  split
  next hconnected => refine .subscribe ?_ ?_ <;> simp [hconnected]
  next habsent => refine .subscribe ?_ ?_ <;> simp [habsent]

theorem answers_unsubscribe (strategy : Strategy) (b : Broker) (id : ClientId) (topic : Topic) :
    Answers strategy b id (.unsubscribe topic)
      (process strategy b ⟨id, .unsubscribe topic⟩).out := by
  rw [out_process strategy b rfl]
  dsimp only [reply]
  split
  next hsome =>
    have hsubscribed := (subscribed_iff b id topic).2 hsome
    refine .unsubscribe ?_ ?_ <;> simp [hsubscribed]
  next hnone =>
    have hother := mt (subscribed_iff b id topic).1 hnone
    refine .unsubscribe ?_ ?_ <;> simp [hother]

/-! ## Publications -/

/-- The copies of a publication go to different connected clients. -/
theorem copies_eq_copiesTo (strategy : Strategy) (b : Broker) (publication : Publication)
    (publisher : Location) :
    ∃ receivers : List ClientId, copies strategy b publication publisher =
      copiesTo receivers publication ∧ receivers.Nodup ∧
        ∀ c ∈ receivers, b.sessions.isConnected c = true := by
  have hdeliver : deliver b publication publisher =
      copiesTo (b.receivers publication publisher) publication := rfl
  have hall : (b.receivers publication publisher).Nodup ∧
      ∀ c ∈ b.receivers publication publisher, b.sessions.isConnected c = true :=
    ⟨Broker.nodup_receivers _ _ _, fun c => Broker.isConnected_of_mem_receivers⟩
  cases strategy with
  | standalone => exact ⟨_, hdeliver, hall⟩
  | geoDistributed =>
    rw [copies]
    split
    · exact ⟨_, hdeliver, hall⟩
    · exact ⟨[], rfl, List.nodup_nil, List.forall_mem_nil _⟩

theorem forwards_eq_forwardsOf (strategy : Strategy) (b : Broker) (publication : Publication)
    (publisher : Location) :
    forwards strategy b publication publisher =
      forwardsOf b.federation publication publisher strategy := by
  cases strategy with
  | standalone => rfl
  | geoDistributed =>
    rw [forwards, forwardToPeers, Federation.peersMeeting, List.map_map]
    rfl

theorem publishAnswer_absent (h : b.sessions.isConnected id = false) :
    PublishAnswer strategy b id publication [] [] .notConnected where
  nodup := List.nodup_nil
  connected := nofun
  refused _ := ⟨rfl, rfl⟩
  forwarded publisher hlocation := by
    rw [← isSome_location?, hlocation] at h
    cases h
  absent_iff := by simp [h]
  filter_iff := by simp [h]
  success_iff := by simp
  forwarded_iff := by simp
  unmatched_iff := by simp [MayPublish, h]

theorem publishAnswer_filter (h : b.sessions.isConnected id = true)
    (hname : publication.topic.isName = false) :
    PublishAnswer strategy b id publication [] [] .protocolError where
  nodup := List.nodup_nil
  connected := nofun
  refused _ := ⟨rfl, rfl⟩
  forwarded publisher _ hyes := by
    rw [hname] at hyes
    cases hyes
  absent_iff := by simp [h]
  filter_iff := by simp [h, hname]
  success_iff := by simp
  forwarded_iff := by simp
  unmatched_iff := by simp [MayPublish, hname]

theorem publishAnswer_name (h : b.sessions.location? id = some publisher)
    (hname : publication.topic.isName = true) {receivers : List ClientId}
    (hnodup : receivers.Nodup) (hconnected : ∀ c ∈ receivers, b.sessions.isConnected c = true) :
    PublishAnswer strategy b id publication receivers
      (forwardsOf b.federation publication publisher strategy)
      (verdict (copiesTo receivers publication)
        (forwardsOf b.federation publication publisher strategy)) := by
  have hid : b.sessions.isConnected id = true := by rw [← isSome_location?, h]; rfl
  have hmay : MayPublish b id publication := ⟨hid, hname⟩
  have hempty : copiesTo receivers publication = [] ↔ receivers = [] := List.map_eq_nil_iff
  obtain ⟨hpresent, hallowed⟩ := verdict_ne_refusal (copiesTo receivers publication)
    (forwardsOf b.federation publication publisher strategy)
  constructor
  case nodup => exact hnodup
  case connected => exact hconnected
  case refused => exact fun hnot => absurd hmay hnot
  case forwarded =>
    intro other hother _
    rw [Option.some.inj (hother.symm.trans h)]
  case absent_iff => simp [hpresent, hid]
  case filter_iff => simp [hallowed, hname]
  case success_iff => simp [verdict_eq_success_iff, hempty, hmay]
  case forwarded_iff => simp [verdict_eq_forwarded_iff, hempty, hmay]
  case unmatched_iff => simp [verdict_eq_unmatched_iff, hempty, hmay]

theorem answers_publish (strategy : Strategy) (b : Broker) (id : ClientId)
    (publication : Publication) :
    Answers strategy b id (.publish publication)
      (process strategy b ⟨id, .publish publication⟩).out := by
  cases hlocation : b.sessions.location? id with
  | none =>
    have habsent : b.sessions.isConnected id = false := by rw [← isSome_location?, hlocation]; rfl
    rw [out_publish_absent strategy publication hlocation]
    exact .publish (publishAnswer_absent habsent)
  | some publisher =>
    have hconnected : b.sessions.isConnected id = true := by rw [← isSome_location?, hlocation]; rfl
    cases hname : publication.topic.isName with
    | false =>
      rw [out_publish_filter strategy hlocation hname]
      exact .publish (publishAnswer_filter hconnected hname)
    | true =>
      obtain ⟨receivers, hcopies, hnodup, hreceivers⟩ :=
        copies_eq_copiesTo strategy b publication publisher
      rw [out_publish_name strategy hlocation hname, hcopies, forwards_eq_forwardsOf]
      exact .publish (publishAnswer_name hlocation hname hnodup hreceivers)

theorem answers_forward (strategy : Strategy) (b : Broker) (sender : String)
    (publication : Publication) (publisher : Location) :
    Answers strategy b sender (.forward publication publisher)
      (process strategy b ⟨sender, .forward publication publisher⟩).out := by
  obtain ⟨receivers, hcopies, hnodup, hreceivers⟩ :=
    copies_eq_copiesTo .standalone b publication publisher
  rw [out_forward, show deliver b publication publisher = _ from hcopies]
  refine .forward ⟨hnodup, hreceivers, ?_, ?_⟩ <;> cases receivers <;> simp [copiesTo]

/-! ## All packets -/

theorem answers_process (strategy : Strategy) (b : Broker) (p : Packet) :
    Answers strategy b p.sender p.payload (process strategy b p).out := by
  obtain ⟨id, payload⟩ := p
  cases payload with
  | connect location => exact answers_connect strategy b id location
  | connack => exact .connack
  | disconnect reason broker =>
    rw [out_process strategy b rfl]
    exact .disconnect
  | pingreq location => exact answers_pingreq strategy b id location
  | pingresp => exact .pingresp
  | subscribe topic geofence => exact answers_subscribe strategy b id topic geofence
  | suback => exact .suback
  | unsubscribe topic => exact answers_unsubscribe strategy b id topic
  | unsuback => exact .unsuback
  | publish publication => exact answers_publish strategy b id publication
  | puback => exact .puback
  | forward publication publisher => exact answers_forward strategy b id publication publisher

/-- After every sequence of packets, under both strategies and for every area: a broker answers the
next packet as the protocol says. If the area is that of an area list, the peers to whom it forwards
stand in the order of that list. -/
theorem every_packet_answered (strategy : Strategy) (granularity : Nat) (federation : Federation)
    (ps : List Packet) (p : Packet) :
    let b := processAll strategy (.start granularity federation) ps
    Answers strategy b p.sender p.payload (process strategy b p).out ∧
      ∀ id entries, Federation.ofEntries id entries = .ok federation →
        b.federation.peers.map (·.info) = (entries.filter (·.id ≠ id)).map (·.info) := by
  intro b
  refine ⟨answers_process strategy b p, fun id entries hentries => ?_⟩
  have hfederation : b.federation = federation := federation_processAll strategy _ ps
  rw [hfederation]
  exact Federation.map_info_peers hentries

/-- What the visitor in the south publishes across the border is answered so, and the one peer that
is told is the northern broker. -/
theorem answered_across_border :
    let b := Federation.visited "south"
    Federation.ofEntries "south" [Federation.south, Federation.north] =
        .ok (Federation.border "south") ∧
      Answers .geoDistributed b "x" (.publish Federation.acrossBorder)
        (process .geoDistributed b ⟨"x", .publish Federation.acrossBorder⟩).out ∧
      b.federation.peers.map (·.info) = [⟨"north", "n", 2⟩] := by
  have hentries : Federation.ofEntries "south" [Federation.south, Federation.north] =
      .ok (Federation.border "south") :=
    Federation.ofEntries_border (e := Federation.south) List.mem_cons_self
  have hvisited : Federation.visited "south" = processAll .geoDistributed
      (.start 1 (Federation.border "south")) (Packet.visit "x" ⟨0.1, 0.1⟩) := by
    rw [Federation.visited, if_pos rfl]
  rw [hvisited]
  obtain ⟨hanswers, hpeers⟩ := every_packet_answered .geoDistributed 1 (Federation.border "south")
    (Packet.visit "x" ⟨0.1, 0.1⟩) ⟨"x", .publish Federation.acrossBorder⟩
  exact ⟨hentries, hanswers, (hpeers _ _ hentries).trans (by decide)⟩

end Protocol

end Geocast
