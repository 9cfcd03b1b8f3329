import Geocast.Proofs.Broker.Consistent

/-!
# Clients do not interfere

All clients share one map of sessions and one filter tree. Still each client lives as if it were
alone: its session after a packet of its own comes of its session before, the packet and the area
list, and no packet of anybody else touches it. What a client is told about itself is decided by the
same three.

* `next`, `reply`: the session of the sender after a packet, and the answer to a packet about the
  sender's own session.
* `get?_process_self`, `get?_process_of_ne`: a packet writes the session of its sender and no other.
* `out_process`: the answer is the one that the sender's session determines.
* `run_eq_alone`: a run shows a client what a run of its own packets alone would.
* `independent_of_others`: two runs with the same packets of a client leave it with the same session
  and have told it the same.
-/
namespace Geocast

namespace Protocol

/-! ## One client alone -/

/-- The packets by which a client changes its session. -/
def isControl : Payload → Bool
  | .connect _ | .disconnect _ _ | .pingreq _ | .subscribe _ _ | .unsubscribe _ => true
  | _ => false

/-- The session of a client after a packet of its own. -/
def next (strategy : Strategy) (f : Federation) (id : ClientId) (s : Option Session) :
    Payload → Option Session
  | .connect location =>
    if serves strategy f location then
      match s with
      | none => some (.start id location)
      | some _ => none
    else s
  | .disconnect _ _ => none
  | .pingreq location =>
    if serves strategy f location then s.map fun session => { session with location := location }
    else none
  | .subscribe topic geofence => s.map fun session => (session.subscribe topic geofence).1
  | .unsubscribe topic => s.map (·.unsubscribe topic)
  | _ => s

/-- The answer to a packet by which a client changes its session. -/
def reply (strategy : Strategy) (f : Federation) (id : ClientId) (s : Option Session) :
    Payload → List Outbound
  | .connect location =>
    if serves strategy f location then
      match s with
      | none => [toClient id (.connack .success)]
      | some _ => [toClient id (.disconnect .protocolError none)]
    else [toClient id (.disconnect .wrongBroker (f.peerAt? location))]
  | .pingreq location =>
    if serves strategy f location then
      [toClient id (.pingresp (if s.isSome then .locationUpdated else .notConnected))]
    else [toClient id (.disconnect .wrongBroker (f.peerAt? location))]
  | .subscribe _ _ =>
    [toClient id (.suback (if s.isSome then .grantedQoS0 else .notConnected))]
  | .unsubscribe topic =>
    [toClient id (.unsuback
      (if (s.bind (·.find? topic)).isSome then .success else .noSubscriptionExisted))]
  | _ => []

/-- The session of a client and the answers to its packets when it is alone with a broker. -/
def alone (strategy : Strategy) (f : Federation) (id : ClientId) :
    Option Session → List Packet → Option Session × List (List Outbound)
  | s, [] => (s, [])
  | s, p :: ps =>
    let (last, answers) := alone strategy f id (next strategy f id s p.payload) ps
    (last,
      if isControl p.payload then reply strategy f id s p.payload :: answers else answers)

/-- The answers to the packets by which a client changes its session, in a run of everybody's. -/
def answersTo (strategy : Strategy) (id : ClientId) : Broker → List Packet → List (List Outbound)
  | _, [] => []
  | b, p :: ps =>
    let outcome := process strategy b p
    let answers := answersTo strategy id outcome.broker ps
    if p.sender = id ∧ isControl p.payload then outcome.out :: answers else answers

variable {strategy : Strategy} {b : Broker} {id : ClientId}

/-! ## The operations, for the client in whose name they are -/

theorem process_connect (strategy : Strategy) (b : Broker) (id : ClientId) (location : Location) :
    process strategy b ⟨id, .connect location⟩ =
      if serves strategy b.federation location then connect b id location
      else ⟨b, [(redirect b id location).1], [(redirect b id location).2]⟩ := by
  cases strategy <;> rfl

theorem process_pingreq (strategy : Strategy) (b : Broker) (id : ClientId) (location : Location) :
    process strategy b ⟨id, .pingreq location⟩ =
      if serves strategy b.federation location then ping b id location
      else pingAtHome b id location := by
  cases strategy with
  | standalone => rfl
  | geoDistributed =>
    change pingAtHome b id location = if b.federation.isHome location then _ else _
    split
    next hhome => rw [pingAtHome, if_pos hhome]
    next => rfl

theorem get?_of_remove? {b' : Broker} (h : b.remove? id = some b') :
    b'.sessions.get? id = none := by
  obtain ⟨session, -, rfl⟩ := Broker.of_remove? h
  exact (Sessions.get?_remove _ _ _).trans (if_pos rfl)

theorem get?_of_remove?_none (h : b.remove? id = none) : b.sessions.get? id = none :=
  Option.map_eq_none_iff.1 h

theorem get?_remove (b : Broker) (id : ClientId) : (b.remove id).sessions.get? id = none := by
  rw [Broker.remove]
  cases h : b.remove? id with
  | none => exact get?_of_remove?_none h
  | some b' => exact get?_of_remove? h

theorem get?_disconnect (b : Broker) (id : ClientId) (reason : Reason) :
    (disconnect b id reason).broker.sessions.get? id = none := by
  rw [disconnect]
  cases h : b.remove? id with
  | none => exact get?_of_remove?_none h
  | some b' => exact get?_of_remove? h

theorem get?_connect (b : Broker) (id : ClientId) (location : Location) :
    (connect b id location).broker.sessions.get? id =
      match b.sessions.get? id with
      | none => some (.start id location)
      | some _ => none := by
  rw [connect, Sessions.connect?, Sessions.isConnected_eq]
  cases h : b.sessions.get? id with
  | none => exact Sessions.get?_put_of_client _ rfl
  | some session => exact get?_remove b id

theorem get?_ping (h : b.Consistent) (location : Location) :
    (ping b id location).broker.sessions.get? id =
      (b.sessions.get? id).map fun session => { session with location := location } := by
  rw [ping, Sessions.move?]
  cases hsession : b.sessions.get? id with
  | none => exact hsession
  | some session =>
    exact Sessions.get?_put_of_client _ (h.sessions.keyed hsession :)

theorem get?_pingAtHome {location : Location} (haway : b.federation.isHome location = false) :
    (pingAtHome b id location).broker.sessions.get? id = none := by
  rw [pingAtHome, if_neg (by rw [haway]; decide)]
  dsimp only
  split
  next b' hremoved => exact get?_of_remove? hremoved
  next hnone => exact get?_of_remove?_none hnone

theorem get?_subscribe (h : b.Consistent) (topic : Topic) (geofence : Geofence) :
    (subscribe b id topic geofence).broker.sessions.get? id =
      (b.sessions.get? id).map fun session => (session.subscribe topic geofence).1 := by
  cases hsession : b.sessions.get? id with
  | none =>
    rw [subscribe, Broker.subscribe?, Sessions.subscribe?, hsession]
    exact hsession
  | some session =>
    rw [subscribe, Broker.subscribe?_of_get? hsession]
    refine Sessions.get?_put_of_client _ ?_
    rw [Session.client_subscribe]
    exact h.sessions.keyed hsession

theorem unsubscribe_of_find?_none {session : Session} {topic : Topic}
    (h : session.find? topic = none) : session.unsubscribe topic = session := by
  rw [Session.unsubscribe, List.filter_eq_self.2]
  intro sub hsub
  rw [Session.find?, List.find?_eq_none] at h
  simpa using h sub hsub

theorem get?_unsubscribe (h : b.Consistent) (topic : Topic) :
    (unsubscribe b id topic).broker.sessions.get? id =
      (b.sessions.get? id).map (·.unsubscribe topic) := by
  rw [unsubscribe, Broker.unsubscribe?, Sessions.subscription?]
  cases hsession : b.sessions.get? id with
  | none => exact hsession
  | some session =>
    cases hfind : session.find? topic with
    | none =>
      rw [Option.map_some, unsubscribe_of_find?_none hfind, Option.bind_some, hfind]
      exact hsession
    | some sub =>
      rw [Option.bind_some, hfind, Option.map_some]
      refine (congrArg (Sessions.get? · id) ?_).trans
        (Sessions.get?_put_of_client b.sessions (h.sessions.keyed hsession :))
      change b.sessions.unsubscribe id topic = _
      rw [Sessions.unsubscribe, hsession]

/-! ## One packet -/

theorem get?_process_self (strategy : Strategy) (h : b.Consistent) (p : Packet) :
    (process strategy b p).broker.sessions.get? p.sender =
      next strategy b.federation p.sender (b.sessions.get? p.sender) p.payload := by
  obtain ⟨id, payload⟩ := p
  cases payload with
  | connect location =>
    rw [process_connect]
    dsimp only [next]
    split
    · exact get?_connect b id location
    · rfl
  | disconnect reason broker => exact get?_disconnect b id reason
  | pingreq location =>
    rw [process_pingreq]
    dsimp only [next]
    split
    · exact get?_ping h location
    next haway =>
      refine get?_pingAtHome ?_
      cases strategy with
      | standalone => exact absurd rfl haway
      | geoDistributed => exact Bool.not_eq_true _ ▸ haway
  | subscribe topic geofence => exact get?_subscribe h topic geofence
  | unsubscribe topic => exact get?_unsubscribe h topic
  | publish publication =>
    cases strategy with
    | standalone =>
      change (publish b id publication).broker.sessions.get? id = _
      rw [publish, broker_publishWith]
      rfl
    | geoDistributed =>
      change (publishAtHome b id publication).broker.sessions.get? id = _
      rw [publishAtHome, broker_publishWith]
      rfl
  | forward publication publisher =>
    change (receiveForward b id publication publisher).broker.sessions.get? id = _
    rw [broker_receiveForward]
    rfl
  | connack | pingresp | suback | unsuback | puback => rfl

/-- No packet touches the session of anybody but its sender. -/
theorem get?_process_of_ne (strategy : Strategy) (h : b.Consistent) {p : Packet}
    (hid : id ≠ p.sender) :
    (process strategy b p).broker.sessions.get? id = b.sessions.get? id := by
  have hput : ∀ session : Session, session.client = p.sender →
      (b.sessions.put session).get? id = b.sessions.get? id := by
    intro session hsession
    rw [Sessions.get?_put, hsession, if_neg (Ne.symm hid)]
  have hchange := change_process strategy b p
  generalize (process strategy b p).broker = b' at hchange
  cases hchange with
  | stay => rfl
  | start => exact hput _ rfl
  | move _ _ present => exact hput _ (h.sessions.keyed present :)
  | stop removed =>
    obtain ⟨session, -, rfl⟩ := Broker.of_remove? removed
    exact (Sessions.get?_remove _ _ _).trans (if_neg (Ne.symm hid))
  | subscribe _ subscribed =>
    obtain ⟨session, hsession, rfl⟩ := Broker.of_subscribe? subscribed
    refine hput _ ?_
    rw [Session.client_subscribe]
    exact h.sessions.keyed hsession
  | unsubscribe _ unsubscribed =>
    obtain ⟨session, _, hsession, -, rfl⟩ := Broker.of_unsubscribe? unsubscribed
    exact hput _ (h.sessions.keyed hsession :)

theorem out_process (strategy : Strategy) (b : Broker) {p : Packet}
    (hp : isControl p.payload = true) :
    (process strategy b p).out =
      reply strategy b.federation p.sender (b.sessions.get? p.sender) p.payload := by
  obtain ⟨id, payload⟩ := p
  cases payload with
  | connect location =>
    rw [process_connect]
    dsimp only [reply]
    split
    · rw [connect, Sessions.connect?, Sessions.isConnected_eq]
      cases b.sessions.get? id <;> rfl
    · rfl
  | disconnect reason broker =>
    change (disconnect b id reason).out = []
    rw [disconnect]
    split <;> rfl
  | pingreq location =>
    rw [process_pingreq]
    dsimp only [reply]
    split
    · rw [ping, Sessions.move?]
      cases b.sessions.get? id <;> rfl
    next haway =>
      cases strategy with
      | standalone => exact absurd rfl haway
      | geoDistributed =>
        rw [pingAtHome, if_neg (show ¬ b.federation.isHome location = true from haway)]
        dsimp only
        split <;> rfl
  | subscribe topic geofence =>
    change (subscribe b id topic geofence).out = _
    dsimp only [reply]
    rw [subscribe, Broker.subscribe?, Sessions.subscribe?]
    cases b.sessions.get? id <;> rfl
  | unsubscribe topic =>
    change (unsubscribe b id topic).out = _
    dsimp only [reply]
    rw [unsubscribe, Broker.unsubscribe?, Sessions.subscription?]
    cases (b.sessions.get? id).bind (·.find? topic) <;> rfl
  | connack | pingresp | suback | unsuback | publish | puback | forward => cases hp

/-! ## Runs -/

/-- What a run of everybody's packets does to one client and tells it, is what a run of its own
packets alone would do and tell. -/
theorem run_eq_alone (strategy : Strategy) (h : b.Consistent) (id : ClientId) (ps : List Packet) :
    ((processAll strategy b ps).sessions.get? id, answersTo strategy id b ps) =
      alone strategy b.federation id (b.sessions.get? id)
        (ps.filter fun p => p.sender = id) := by
  induction ps generalizing b with
  | nil => rfl
  | cons p ps ih =>
    have hchange := change_process strategy b p
    have hrest := ih (Broker.consistent_change h hchange)
    rw [federation_change hchange] at hrest
    change ((processAll strategy (process strategy b p).broker ps).sessions.get? id, _) = _
    by_cases hid : p.sender = id
    · subst hid
      have hown : (p :: ps).filter (fun q => q.sender = p.sender) =
          p :: ps.filter fun q => q.sender = p.sender :=
        List.filter_cons_of_pos (decide_eq_true rfl)
      rw [hown, alone, ← get?_process_self strategy h p, ← hrest,
        answersTo]
      dsimp only
      by_cases hp : isControl p.payload = true
      · rw [if_pos ⟨rfl, hp⟩, if_pos hp, out_process strategy b hp]
      · rw [if_neg (fun hand => hp hand.2), if_neg hp]
    · have hother : (p :: ps).filter (fun q => q.sender = id) =
          ps.filter fun q => q.sender = id :=
        List.filter_cons_of_neg fun heq => hid (of_decide_eq_true heq)
      rw [hother, ← get?_process_of_ne strategy h (Ne.symm hid), ← hrest,
        answersTo, if_neg fun hand => hid hand.1]

/-- Two runs from a broker to which nobody has connected, in which a client sends the same packets
and everybody else sends anything: the client ends with the same session and has got the same
answers to its packets that connect, disconnect, move, subscribe and unsubscribe. -/
theorem independent_of_others (strategy : Strategy) (granularity : Nat) (federation : Federation)
    (id : ClientId) (ps qs : List Packet)
    (hsame : ps.filter (fun p => p.sender = id) = qs.filter (fun q => q.sender = id)) :
    let b := Broker.start granularity federation
    (processAll strategy b ps).sessions.get? id = (processAll strategy b qs).sessions.get? id ∧
      answersTo strategy id b ps = answersTo strategy id b qs := by
  intro b
  have h : b.Consistent := Broker.consistent_start granularity federation
  have hps := run_eq_alone strategy h id ps
  have hqs := run_eq_alone strategy h id qs
  rw [hsame, ← hqs, Prod.mk.injEq] at hps
  exact hps

/-- A visitor is told the same, and has the same session, when another one comes before it. -/
theorem independent_of_second_visitor :
    let xs := Packet.visit "x" ⟨0.1, 0.1⟩
    let ys := Packet.visit "y" ⟨0.2, 0.2⟩
    let b := Broker.start 1 (.world ⟨"b", "h", 1⟩)
    ys ++ xs ≠ xs ∧
      (ys ++ xs).filter (fun p => p.sender = "x") = xs.filter (fun p => p.sender = "x") ∧
      (processAll .standalone b (ys ++ xs)).sessions.get? "x" =
        (processAll .standalone b xs).sessions.get? "x" ∧
      answersTo .standalone "x" b (ys ++ xs) = answersTo .standalone "x" b xs := by
  intro xs ys b
  have hsame : (ys ++ xs).filter (fun p => p.sender = "x") = xs.filter fun p => p.sender = "x" := by
    rfl
  have hmore : ys ++ xs ≠ xs := fun h => absurd (congrArg List.length h) (show 4 ≠ 2 by decide)
  exact ⟨hmore, hsame, independent_of_others .standalone 1 _ "x" _ _ hsame⟩

end Protocol

end Geocast
