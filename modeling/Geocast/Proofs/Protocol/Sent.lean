import Geocast.Proofs.Protocol.Independence

/-!
# What a packet sends out

A packet by which a client changes its session is answered to that client and to nobody else
(`out_process`). What is left are publications. The two strategies treat them alike: a broker sends
copies to its own clients, forwards to its peers, and one acknowledgement, and they differ only in
which copies and forwards these are.

* `copies`, `forwards`: what a strategy makes of a publication at the place of the publisher.
* `out_publish_absent`, `out_publish_filter`, `out_publish_name`: all that is sent when a client
  publishes that is not connected, to a filter, or to a name.
* `out_forward`: all that is sent when a peer forwards a publication.
* `Sent`: the five sorts of packets that are sent, with what has been tested before; `sent_process`:
  no packet makes a broker send anything else.
-/
namespace Geocast

namespace Protocol

variable {strategy : Strategy} {b : Broker} {id : ClientId} {p : Packet} {o : Outbound}
  {publication : Publication} {publisher : Location}

/-! ## Publications -/

/-- The copies of a publication. A broker of a federation looks for receivers only if the home area
meets the geofence. -/
def copies (strategy : Strategy) (b : Broker) (publication : Publication) (publisher : Location) :
    List Outbound :=
  match strategy with
  | .standalone => deliver b publication publisher
  | .geoDistributed =>
    if b.federation.homeMeets publication.geofence then deliver b publication publisher else []

/-- The forwards of a publication. A broker that works alone has nobody to forward to. -/
def forwards (strategy : Strategy) (b : Broker) (publication : Publication)
    (publisher : Location) : List Outbound :=
  match strategy with
  | .standalone => []
  | .geoDistributed => forwardToPeers b publication publisher

/-- What a client is told about a publication that the protocol allows. -/
def verdict (copies forwards : List Outbound) : Reason :=
  if !copies.isEmpty then .success
  else if !forwards.isEmpty then .noMatchingSubscribersButForwarded
  else .noMatchingSubscribers

theorem verdict_eq_success_iff {copies forwards : List Outbound} :
    verdict copies forwards = .success ↔ copies ≠ [] := by
  cases copies <;> cases forwards <;> simp [verdict]

theorem verdict_eq_forwarded_iff {copies forwards : List Outbound} :
    verdict copies forwards = .noMatchingSubscribersButForwarded ↔
      copies = [] ∧ forwards ≠ [] := by
  cases copies <;> cases forwards <;> simp [verdict]

theorem verdict_eq_unmatched_iff {copies forwards : List Outbound} :
    verdict copies forwards = .noMatchingSubscribers ↔ copies = [] ∧ forwards = [] := by
  cases copies <;> cases forwards <;> simp [verdict]

theorem verdict_ne_refusal (copies forwards : List Outbound) :
    verdict copies forwards ≠ .notConnected ∧ verdict copies forwards ≠ .protocolError := by
  cases copies <;> cases forwards <;> simp [verdict]

/-- Under both strategies a client publishes in the same way. -/
theorem process_publish (strategy : Strategy) (b : Broker) (id : ClientId)
    (publication : Publication) :
    ∃ report, process strategy b ⟨id, .publish publication⟩ =
      publishWith b id publication (copies strategy b publication)
        (forwards strategy b publication) report := by
  cases strategy with
  | standalone =>
    change ∃ report, publish b id publication = _
    exact ⟨_, rfl⟩
  | geoDistributed =>
    change ∃ report, publishAtHome b id publication = _
    exact ⟨_, rfl⟩

theorem broker_publish (strategy : Strategy) (b : Broker) (id : ClientId)
    (publication : Publication) :
    (process strategy b ⟨id, .publish publication⟩).broker = b := by
  obtain ⟨report, hprocess⟩ := process_publish strategy b id publication
  rw [hprocess]
  exact broker_publishWith _ _ _ _ _ _

theorem out_publish_absent (strategy : Strategy) (publication : Publication)
    (h : b.sessions.location? id = none) :
    (process strategy b ⟨id, .publish publication⟩).out =
      [toClient id (.puback .notConnected)] := by
  obtain ⟨report, hprocess⟩ := process_publish strategy b id publication
  rw [hprocess, publishWith, h]

theorem out_publish_filter (strategy : Strategy) (h : b.sessions.location? id = some publisher)
    (hname : publication.topic.isName = false) :
    (process strategy b ⟨id, .publish publication⟩).out =
      [toClient id (.puback .protocolError)] := by
  obtain ⟨report, hprocess⟩ := process_publish strategy b id publication
  rw [hprocess, publishWith, h, hname]
  rfl

theorem out_publish_name (strategy : Strategy) (h : b.sessions.location? id = some publisher)
    (hname : publication.topic.isName = true) :
    (process strategy b ⟨id, .publish publication⟩).out =
      copies strategy b publication publisher ++ forwards strategy b publication publisher ++
        [toClient id (.puback (verdict (copies strategy b publication publisher)
          (forwards strategy b publication publisher)))] := by
  obtain ⟨report, hprocess⟩ := process_publish strategy b id publication
  rw [hprocess, publishWith, h, hname]
  rfl

theorem out_forward (strategy : Strategy) (b : Broker) (sender : String)
    (publication : Publication) (publisher : Location) :
    (process strategy b ⟨sender, .forward publication publisher⟩).out =
      deliver b publication publisher ++
        ((b.federation.peer? sender).map fun info => ⟨.broker info, .puback
          (if (deliver b publication publisher).isEmpty then .noMatchingSubscribers
            else .success)⟩).toList := by
  change (receiveForward b sender publication publisher).out = _
  rw [receiveForward]
  cases b.federation.peer? sender with
  | none => exact (List.append_nil _).symm
  | some info => rfl

theorem mem_deliver :
    o ∈ deliver b publication publisher ↔
      ∃ c ∈ b.receivers publication publisher, toClient c (.publish publication) = o :=
  List.mem_map

theorem mem_deliver_of_mem_copies (h : o ∈ copies strategy b publication publisher) :
    o ∈ deliver b publication publisher := by
  cases strategy with
  | standalone => exact h
  | geoDistributed =>
    rw [copies] at h
    split at h
    · exact h
    · cases h

theorem eq_of_mem_forwards (h : o ∈ forwards strategy b publication publisher) :
    ∃ info, ⟨.broker info, .forward publication publisher⟩ = o := by
  cases strategy with
  | standalone => cases h
  | geoDistributed =>
    obtain ⟨info, -, hinfo⟩ := List.mem_map.1 h
    exact ⟨info, hinfo⟩

/-! ## All packets -/

/-- A packet sent in answer to another one, as it can come of that one. -/
inductive Sent (b : Broker) (p : Packet) : Outbound → Prop
  /-- A client is told about its session. -/
  | reply {payload : Payload} (control : isControl p.payload = true)
      (reason : payload.reason?.isSome = true) : Sent b p (toClient p.sender payload)
  /-- A publication is acknowledged. -/
  | acknowledgement {recipient : Addressee} {reason : Reason} : Sent b p ⟨recipient, .puback reason⟩
  /-- A client gets a copy of what another one publishes here. -/
  | copy {publication : Publication} {c : ClientId} (payload : p.payload = .publish publication)
      (name : publication.topic.isName = true) : Sent b p (toClient c (.publish publication))
  /-- A peer gets a forward of what a client publishes here. -/
  | forward {publication : Publication} {publisher : Location} {info : BrokerInfo}
      (payload : p.payload = .publish publication) (name : publication.topic.isName = true) :
      Sent b p ⟨.broker info, .forward publication publisher⟩
  /-- A client gets a copy of what was published at a peer. -/
  | relay {publication : Publication} {publisher : Location} {c : ClientId}
      (payload : p.payload = .forward publication publisher)
      (received : c ∈ b.receivers publication publisher) :
      Sent b p (toClient c (.publish publication))

theorem of_mem_reply {f : Federation} {s : Option Session} {payload : Payload}
    (h : o ∈ reply strategy f id s payload) :
    ∃ answer, o = toClient id answer ∧ answer.reason?.isSome = true := by
  cases payload with
  | connect location =>
    dsimp only [reply] at h
    split at h
    · split at h <;> exact ⟨_, List.mem_singleton.1 h, rfl⟩
    · exact ⟨_, List.mem_singleton.1 h, rfl⟩
  | pingreq location =>
    dsimp only [reply] at h
    split at h <;> exact ⟨_, List.mem_singleton.1 h, rfl⟩
  | subscribe | unsubscribe => exact ⟨_, List.mem_singleton.1 h, rfl⟩
  | disconnect | connack | pingresp | suback | unsuback | publish | puback | forward => cases h

/-- A broker sends nothing for a packet but one of the five sorts. -/
theorem sent_process (strategy : Strategy) (ho : o ∈ (process strategy b p).out) : Sent b p o := by
  by_cases hp : isControl p.payload = true
  · rw [out_process strategy b hp] at ho
    obtain ⟨answer, rfl, hreason⟩ := of_mem_reply ho
    exact .reply hp hreason
  obtain ⟨id, payload⟩ := p
  cases payload with
  | connect | disconnect | pingreq | subscribe | unsubscribe => exact absurd rfl hp
  | publish publication =>
    cases hlocation : b.sessions.location? id with
    | none =>
      rw [out_publish_absent strategy publication hlocation, List.mem_singleton] at ho
      exact ho ▸ .acknowledgement
    | some publisher =>
      cases hname : publication.topic.isName with
      | false =>
        rw [out_publish_filter strategy hlocation hname, List.mem_singleton] at ho
        exact ho ▸ .acknowledgement
      | true =>
        rw [out_publish_name strategy hlocation hname] at ho
        simp only [List.mem_append, List.mem_singleton] at ho
        obtain (ho | ho) | rfl := ho
        · obtain ⟨c, -, rfl⟩ := mem_deliver.1 (mem_deliver_of_mem_copies ho)
          exact .copy rfl hname
        · obtain ⟨info, rfl⟩ := eq_of_mem_forwards ho
          exact .forward rfl hname
        · exact .acknowledgement
  | forward publication publisher =>
    rw [out_forward, List.mem_append] at ho
    obtain ho | ho := ho
    · obtain ⟨c, hc, rfl⟩ := mem_deliver.1 ho
      exact .relay rfl hc
    · rw [Option.mem_toList, Option.map_eq_some_iff] at ho
      obtain ⟨info, -, rfl⟩ := ho
      exact .acknowledgement
  | connack | pingresp | suback | unsuback | puback => cases ho

end Protocol

end Geocast
