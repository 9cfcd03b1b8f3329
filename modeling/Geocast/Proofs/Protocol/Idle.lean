import Geocast.Proofs.Protocol.Dismissal

/-!
# Packets that change nothing

Some packets only ask: publications, and acknowledgements that nobody waits for. Others are refused,
because their sender is not connected, has no such subscription, or connects from elsewhere. None of
them leaves a trace in the state of the broker, not even a node of the filter tree or an empty
bucket of a grid.

* `Idle`: the packets that are refused or only read, one rule for each kind.
* `broker_of_idle`: an idle packet leaves the whole state as it is; `processAll_of_idle`: so does
  any number of them.
* `Repeats`: a packet says what the broker knows already.
* `idle_of_get?_eq`: every other packet writes the session of its sender, or is a stray connect.
* `idle_changes_nothing`: both, after every sequence of packets.
-/
namespace Geocast

namespace Protocol

/-- A payload of a sender is refused, or only read. -/
inductive Idle (strategy : Strategy) (b : Broker) (id : ClientId) : Payload → Prop
  | connect {location : Location} (elsewhere : serves strategy b.federation location = false)
      (absent : b.sessions.isConnected id = false) : Idle strategy b id (.connect location)
  | disconnect {reason : Reason} {broker : Option BrokerInfo}
      (absent : b.sessions.isConnected id = false) : Idle strategy b id (.disconnect reason broker)
  | pingreq {location : Location} (absent : b.sessions.isConnected id = false) :
      Idle strategy b id (.pingreq location)
  | subscribe {topic : Topic} {geofence : Geofence} (absent : b.sessions.isConnected id = false) :
      Idle strategy b id (.subscribe topic geofence)
  | unsubscribe {topic : Topic} (missing : b.sessions.subscription? id topic = none) :
      Idle strategy b id (.unsubscribe topic)
  | publish {publication : Publication} : Idle strategy b id (.publish publication)
  | forward {publication : Publication} {publisher : Location} :
      Idle strategy b id (.forward publication publisher)
  | connack {reason : Reason} : Idle strategy b id (.connack reason)
  | pingresp {reason : Reason} : Idle strategy b id (.pingresp reason)
  | suback {reason : Reason} : Idle strategy b id (.suback reason)
  | unsuback {reason : Reason} : Idle strategy b id (.unsuback reason)
  | puback {reason : Reason} : Idle strategy b id (.puback reason)

/-- A client says that it is where it was, or subscribes to a topic with the geofence that it has
there. -/
inductive Repeats (b : Broker) (id : ClientId) : Payload → Prop
  | pingreq {location : Location} (same : b.sessions.location? id = some location) :
      Repeats b id (.pingreq location)
  | subscribe {topic : Topic} {geofence : Geofence} {sub : Subscription}
      (present : b.sessions.subscription? id topic = some sub) (same : sub.geofence = geofence) :
      Repeats b id (.subscribe topic geofence)

variable {strategy : Strategy} {b : Broker} {id : ClientId} {p : Packet}

theorem isConnected_eq_false_iff :
    b.sessions.isConnected id = false ↔ b.sessions.get? id = none := by
  rw [Sessions.isConnected_eq]
  simp

theorem remove?_of_absent (h : b.sessions.isConnected id = false) : b.remove? id = none := by
  rw [Broker.remove?, isConnected_eq_false_iff.1 h, Option.map_none]

/-! ## One packet -/

theorem broker_ping_of_absent (location : Location) (h : b.sessions.isConnected id = false) :
    (ping b id location).broker = b := by
  rw [ping, Sessions.move?, isConnected_eq_false_iff.1 h]
  rfl

theorem broker_pingreq_of_absent (strategy : Strategy) (location : Location)
    (h : b.sessions.isConnected id = false) :
    (process strategy b ⟨id, .pingreq location⟩).broker = b := by
  rw [process_pingreq]
  split
  · exact broker_ping_of_absent location h
  -- Outside the area the client would be evicted, but there is nobody to evict.
  · unfold pingAtHome
    dsimp only
    split
    · exact broker_ping_of_absent location h
    · rw [remove?_of_absent h]

theorem broker_of_idle (h : Idle strategy b p.sender p.payload) :
    (process strategy b p).broker = b := by
  obtain ⟨id, payload⟩ := p
  cases h with
  | connect elsewhere absent =>
    rw [process_connect, elsewhere]
    rfl
  | disconnect absent =>
    change (disconnect b id _).broker = b
    rw [disconnect, remove?_of_absent absent]
  | pingreq absent => exact broker_pingreq_of_absent strategy _ absent
  | subscribe absent =>
    change (subscribe b id _ _).broker = b
    rw [subscribe, Broker.subscribe?, Sessions.subscribe?, isConnected_eq_false_iff.1 absent]
    rfl
  | unsubscribe missing =>
    change (unsubscribe b id _).broker = b
    rw [unsubscribe, Broker.unsubscribe?, missing]
    rfl
  | publish => exact broker_publish strategy b id _
  | forward => exact broker_receiveForward b id _ _
  | connack | pingresp | suback | unsuback | puback => rfl

/-- A packet after which its sender has the session that it had is idle, says what the broker knows
already, or connects a client with a session from elsewhere. -/
theorem idle_of_get?_eq (h : b.Consistent)
    (hsame : (process strategy b p).broker.sessions.get? p.sender = b.sessions.get? p.sender) :
    Idle strategy b p.sender p.payload ∨ Repeats b p.sender p.payload ∨ IsStray strategy b p := by
  rw [get?_process_self strategy h p] at hsame
  obtain ⟨id, payload⟩ := p
  dsimp only at hsame ⊢
  cases payload with
  | connect location =>
    unfold next at hsame
    by_cases hserved : serves strategy b.federation location = true
    · cases hsession : b.sessions.get? id <;> simp [hserved, hsession] at hsame
    · rw [Bool.not_eq_true] at hserved
      cases hid : b.sessions.isConnected id with
      | false => exact .inl (.connect hserved hid)
      | true => exact .inr (.inr ⟨by simp [isElsewhere, hserved], hid⟩)
  | disconnect reason broker => exact .inl (.disconnect (isConnected_eq_false_iff.2 hsame.symm))
  | pingreq location =>
    cases hsession : b.sessions.get? id with
    | none => exact .inl (.pingreq (isConnected_eq_false_iff.2 hsession))
    | some session =>
      unfold next at hsame
      by_cases hserved : serves strategy b.federation location = true
      · refine .inr (.inl (.pingreq ?_))
        simp only [hserved, hsession, if_true, Option.map_some, Option.some.injEq] at hsame
        rw [Sessions.location?, hsession, ← hsame]
        rfl
      · simp [hserved, hsession] at hsame
  | subscribe topic geofence =>
    cases hsession : b.sessions.get? id with
    | none => exact .inl (.subscribe (isConnected_eq_false_iff.2 hsession))
    | some session =>
      unfold next at hsame
      simp only [hsession, Option.map_some, Option.some.injEq] at hsame
      have hfind := Session.find?_subscribe_self session topic geofence
      rw [hsame, ← Sessions.subscription?_eq hsession] at hfind
      exact .inr (.inl (.subscribe hfind rfl))
  | unsubscribe topic =>
    refine .inl (.unsubscribe ?_)
    cases hsession : b.sessions.get? id with
    | none => rw [Sessions.subscription?, hsession, Option.bind_none]
    | some session =>
      unfold next at hsame
      simp only [hsession, Option.map_some, Option.some.injEq] at hsame
      rw [Sessions.subscription?_eq hsession, ← hsame, Session.find?_unsubscribe, if_pos rfl]
  | publish => exact .inl .publish
  | forward => exact .inl .forward
  | connack => exact .inl .connack
  | pingresp => exact .inl .pingresp
  | suback => exact .inl .suback
  | unsuback => exact .inl .unsuback
  | puback => exact .inl .puback

/-! ## Runs -/

theorem processAll_of_idle {ps : List Packet}
    (h : ∀ p ∈ ps, Idle strategy b p.sender p.payload) : processAll strategy b ps = b := by
  induction ps with
  | nil => rfl
  | cons p ps ih =>
    change processAll strategy (process strategy b p).broker ps = b
    rw [broker_of_idle (h p List.mem_cons_self)]
    exact ih fun q hq => h q (List.mem_cons_of_mem p hq)

/-- After every sequence of packets, under both strategies: any number of packets that are refused
or only read leave the whole state of the broker as it is. Every other packet changes it, unless it
says what the broker knows already or connects a client with a session from elsewhere. -/
theorem idle_changes_nothing (strategy : Strategy) (granularity : Nat) (federation : Federation)
    (ps : List Packet) :
    let b := processAll strategy (.start granularity federation) ps
    (∀ qs : List Packet, (∀ q ∈ qs, Idle strategy b q.sender q.payload) →
      processAll strategy b qs = b) ∧
    ∀ p : Packet, ¬ Idle strategy b p.sender p.payload → ¬ Repeats b p.sender p.payload →
      ¬ IsStray strategy b p → (process strategy b p).broker ≠ b := by
  intro b
  have h : b.Consistent := Broker.consistent_processAll strategy granularity federation ps
  refine ⟨fun qs => processAll_of_idle, fun p hidle hrepeats hstray hsame => ?_⟩
  have hget : (process strategy b p).broker.sessions.get? p.sender = b.sessions.get? p.sender := by
    rw [hsame]
  rcases idle_of_get?_eq h hget with hp | hp | hp
  · exact hidle hp
  · exact hrepeats hp
  · exact hstray hp

/-- A stranger that the broker does not know changes nothing, whatever it tries, though there is a
node for the filter that it wants to leave; nor do publications. That the visitor leaves changes the
state. -/
theorem idle_stranger :
    let f : Federation := ⟨⟨⟨"b", "h", 1⟩, .nearOrigin⟩, []⟩
    let b := processAll .geoDistributed (.start 1 f) (Packet.visit "x" ⟨0.1, 0.1⟩)
    let filter : Topic := ⟨[.normal "a", .multi]⟩
    let publication : Publication := ⟨⟨[.normal "a"]⟩, .nearOrigin, "news"⟩
    processAll .geoDistributed b
        [⟨"y", .connect ⟨10.0, 10.0⟩⟩, ⟨"y", .pingreq ⟨10.0, 10.0⟩⟩,
          ⟨"y", .subscribe filter .world⟩, ⟨"y", .unsubscribe filter⟩,
          ⟨"y", .disconnect .normalDisconnection none⟩,
          ⟨"x", .publish publication⟩, ⟨"peer", .forward publication ⟨0.2, 0.2⟩⟩,
          ⟨"y", .suback .success⟩] = b ∧
      (process .geoDistributed b ⟨"x", .disconnect .normalDisconnection none⟩).broker ≠ b := by
  intro f b filter publication
  have hf : b.federation = f := federation_processAll .geoDistributed _ _
  have habsent : b.sessions.isConnected "y" = false := by decide +kernel
  have hpresent : b.sessions.isConnected "x" = true := by decide +kernel
  have haway : serves .geoDistributed b.federation ⟨10.0, 10.0⟩ = false := by
    rw [hf]
    decide +kernel
  have hmissing : b.sessions.subscription? "y" filter = none := by
    rw [Sessions.subscription?, isConnected_eq_false_iff.1 habsent, Option.bind_none]
  obtain ⟨hidle, hothers⟩ :=
    idle_changes_nothing .geoDistributed 1 f (Packet.visit "x" ⟨0.1, 0.1⟩)
  refine ⟨hidle _ ?_, hothers _ ?_ ?_ ?_⟩
  · simp only [List.forall_mem_cons]
    exact ⟨.connect haway habsent, .pingreq habsent, .subscribe habsent, .unsubscribe hmissing,
      .disconnect habsent, .publish, .forward, .suback, List.forall_mem_nil _⟩
  · intro hleaves
    cases hleaves with
    | disconnect hgone => exact Bool.false_ne_true (hgone.symm.trans hpresent)
  · intro hrepeats
    cases hrepeats
  · intro hstray
    cases hstray.1

end Protocol

end Geocast
