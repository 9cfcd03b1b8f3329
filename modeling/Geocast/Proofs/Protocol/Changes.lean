import Geocast.Protocol
import Geocast.Sessions.Lemmas

/-!
# What a packet can do to a broker

Whatever a packet is and whoever sends it, the state of the broker changes in one of six ways, and
all of them are in the name of the sender. Every invariant of a broker is proved for these six.

* `Change`: the six ways, with what the protocol has tested before.
* `change_process`: no packet does anything else.
* `Broker.of_subscribe?`, `Broker.of_unsubscribe?`, `Broker.of_remove?`: which session is written or
  ends in them, and what becomes of the filter tree.
* `Broker.sessions_change`: a property of sessions that the six changes keep.
* `processAll_induction`: what holds at the start and is kept by every change holds after every
  sequence of packets.
-/
namespace Geocast

namespace Protocol

/-- Whether a broker serves clients at a location: in a federation only inside the home area. -/
def serves (strategy : Strategy) (f : Federation) (p : Location) : Bool :=
  match strategy with
  | .standalone => true
  | .geoDistributed => f.isHome p

/-- The state after a packet, as it can come of the state before. -/
inductive Change (strategy : Strategy) (b : Broker) (p : Packet) : Broker → Prop
  /-- Nothing happens. -/
  | stay : Change strategy b p b
  /-- A session begins. -/
  | start {location : Location} (payload : p.payload = .connect location)
      (served : serves strategy b.federation location = true)
      (absent : b.sessions.get? p.sender = none) :
      Change strategy b p { b with sessions := b.sessions.put (.start p.sender location) }
  /-- A session moves. -/
  | move {location : Location} {session : Session} (payload : p.payload = .pingreq location)
      (served : serves strategy b.federation location = true)
      (present : b.sessions.get? p.sender = some session) :
      Change strategy b p
        { b with sessions := b.sessions.put { session with location := location } }
  /-- A session ends. -/
  | stop {b' : Broker} (removed : b.remove? p.sender = some b') : Change strategy b p b'
  /-- A subscription begins, or moves to another geofence. -/
  | subscribe {topic : Topic} {geofence : Geofence} {b' : Broker} {sub : SubscriptionId}
      (payload : p.payload = .subscribe topic geofence)
      (subscribed : b.subscribe? p.sender topic geofence = some (b', sub)) : Change strategy b p b'
  /-- A subscription ends. -/
  | unsubscribe {topic : Topic} {b' : Broker} (payload : p.payload = .unsubscribe topic)
      (unsubscribed : b.unsubscribe? p.sender topic = some b') : Change strategy b p b'

variable {strategy : Strategy} {b : Broker} {p : Packet} {location : Location}

/-! ## One packet -/

theorem change_remove : Change strategy b p (b.remove p.sender) := by
  rw [Broker.remove]
  cases h : b.remove? p.sender with
  | none => exact .stay
  | some b' => exact .stop h

theorem change_connect (hp : p.payload = .connect location)
    (hserved : serves strategy b.federation location = true) :
    Change strategy b p (connect b p.sender location).broker := by
  rw [connect, Sessions.connect?, Sessions.isConnected_eq]
  cases h : b.sessions.get? p.sender with
  | none => exact .start hp hserved h
  | some session => exact change_remove

theorem change_ping (hp : p.payload = .pingreq location)
    (hserved : serves strategy b.federation location = true) :
    Change strategy b p (ping b p.sender location).broker := by
  rw [ping, Sessions.move?]
  cases h : b.sessions.get? p.sender with
  | none => exact .stay
  | some session => exact .move hp hserved h

theorem change_connectAtHome (hp : p.payload = .connect location) :
    Change .geoDistributed b p (connectAtHome b p.sender location).broker := by
  rw [connectAtHome]
  split
  next hhome => exact change_connect hp hhome
  next => exact .stay

theorem change_pingAtHome (hp : p.payload = .pingreq location) :
    Change .geoDistributed b p (pingAtHome b p.sender location).broker := by
  rw [pingAtHome]
  split
  next hhome => exact change_ping hp hhome
  next =>
    dsimp only
    split
    next b' hremoved => exact .stop hremoved
    next => exact .stay

theorem broker_publishWith (b : Broker) (id : ClientId) (publication : Publication)
    (copies forwards : Location → List Outbound) (report : Nat → Nat → String) :
    (publishWith b id publication copies forwards report).broker = b := by
  rw [publishWith]
  split
  · rfl
  · split <;> rfl

theorem broker_receiveForward (b : Broker) (sender : String) (publication : Publication)
    (publisher : Location) : (receiveForward b sender publication publisher).broker = b := by
  rw [receiveForward]
  split <;> rfl

/-- No packet does anything to a broker but one of the six changes. -/
theorem change_process (strategy : Strategy) (b : Broker) (p : Packet) :
    Change strategy b p (process strategy b p).broker := by
  rw [process]
  split
  next location hp =>
    cases strategy with
    | standalone => exact change_connect hp rfl
    | geoDistributed => exact change_connectAtHome hp
  next reason _ hp =>
    rw [disconnect]
    split
    next b' hremoved => exact .stop hremoved
    next => exact .stay
  next location hp =>
    cases strategy with
    | standalone => exact change_ping hp rfl
    | geoDistributed => exact change_pingAtHome hp
  next topic geofence hp =>
    rw [subscribe]
    split
    next b' sub hsubscribed => exact .subscribe hp hsubscribed
    next => exact .stay
  next topic hp =>
    rw [unsubscribe]
    split
    next b' hunsubscribed => exact .unsubscribe hp hunsubscribed
    next => exact .stay
  next publication hp =>
    cases strategy with
    | standalone =>
      simp only [publish, broker_publishWith]
      exact .stay
    | geoDistributed =>
      simp only [publishAtHome, broker_publishWith]
      exact .stay
  next publication publisher hp =>
    rw [broker_receiveForward]
    exact .stay
  all_goals exact .stay

theorem federation_change {b' : Broker} (h : Change strategy b p b') :
    b'.federation = b.federation := by
  cases h with
  | stay => rfl
  | start => rfl
  | move => rfl
  | stop removed =>
    obtain ⟨session, -, rfl⟩ := Option.map_eq_some_iff.1 removed
    rfl
  | subscribe _ subscribed =>
    obtain ⟨found, -, hfound⟩ := Option.map_eq_some_iff.1 subscribed
    cases hfound
    rfl
  | unsubscribe _ unsubscribed =>
    obtain ⟨sub, -, rfl⟩ := Option.map_eq_some_iff.1 unsubscribed
    rfl

end Protocol

namespace Broker

/-! ## Sessions after a change -/

variable {b b' : Broker} {client : ClientId} {topic : Topic} {geofence : Geofence}

/-- A grid without what a client has at a filter. -/
def without (b : Broker) (client : ClientId) (topic : Topic) (grid : Grid) : Grid :=
  match b.sessions.subscription? client topic with
  | some old => grid.erase old.id old.geofence.box
  | none => grid

theorem subscribe?_of_get? {session : Session} (h : b.sessions.get? client = some session)
    (topic : Topic) (geofence : Geofence) :
    b.subscribe? client topic geofence =
      some ({ b with
          sessions := b.sessions.put (session.subscribe topic geofence).1
          filters := b.filters.create topic fun grid =>
            (b.without client topic grid).insert (session.subscribe topic geofence).2
              geofence.box },
        (session.subscribe topic geofence).2) := by
  rw [subscribe?, Sessions.subscribe?, h]
  rfl

/-- Only a connected client subscribes, and its session is what subscribing makes of it. -/
theorem of_subscribe? {sub : SubscriptionId}
    (h : b.subscribe? client topic geofence = some (b', sub)) :
    ∃ session, b.sessions.get? client = some session ∧ b' = { b with
      sessions := b.sessions.put (session.subscribe topic geofence).1
      filters := b.filters.create topic fun grid =>
        (b.without client topic grid).insert (session.subscribe topic geofence).2
          geofence.box } := by
  obtain ⟨found, hfound, -⟩ := Option.map_eq_some_iff.1 h
  obtain ⟨session, hsession, -⟩ := Option.map_eq_some_iff.1 hfound
  rw [subscribe?_of_get? hsession, Option.some.injEq, Prod.mk.injEq] at h
  exact ⟨session, hsession, h.1.symm⟩

theorem of_unsubscribe? (h : b.unsubscribe? client topic = some b') :
    ∃ session sub, b.sessions.get? client = some session ∧ session.find? topic = some sub ∧
      b' = { b with
        sessions := b.sessions.put (session.unsubscribe topic)
        filters := withdraw b.filters sub } := by
  obtain ⟨sub, hsub, rfl⟩ := Option.map_eq_some_iff.1 h
  obtain ⟨session, hsession, hfind⟩ := Option.bind_eq_some_iff.1 hsub
  refine ⟨session, sub, hsession, hfind, ?_⟩
  rw [Sessions.unsubscribe, hsession]

theorem of_remove? (h : b.remove? client = some b') :
    ∃ session, b.sessions.get? client = some session ∧ b' = { b with
      sessions := b.sessions.remove client
      filters := session.subscriptions.foldl withdraw b.filters } := by
  obtain ⟨session, hsession, rfl⟩ := Option.map_eq_some_iff.1 h
  exact ⟨session, hsession, rfl⟩

/-- What a session has when it starts, and what moving and changing subscriptions keep, all sessions
have after a change when they had it before. -/
theorem sessions_change {strategy : Strategy} {p : Packet} {P : Session → Prop}
    (hchange : Protocol.Change strategy b p b')
    (h : ∀ client session, b.sessions.get? client = some session → P session)
    (start : ∀ location, Protocol.serves strategy b.federation location = true →
      P (.start p.sender location))
    (move : ∀ location session, Protocol.serves strategy b.federation location = true →
      P session → P { session with location := location })
    (subscribe : ∀ topic geofence session, p.payload = .subscribe topic geofence → P session →
      P (session.subscribe topic geofence).1)
    (unsubscribe : ∀ topic session, P session → P (session.unsubscribe topic)) :
    ∀ client session, b'.sessions.get? client = some session → P session := by
  have hput : ∀ written, P written → ∀ client session,
      (b.sessions.put written).get? client = some session → P session := by
    intro written hwritten client session hsession
    rw [Sessions.get?_put] at hsession
    split at hsession
    · exact Option.some.inj hsession ▸ hwritten
    · exact h client session hsession
  cases hchange with
  | stay => exact h
  | start _ served _ => exact hput _ (start _ served)
  | move _ served present => exact hput _ (move _ _ served (h _ _ present))
  | stop removed =>
    obtain ⟨_, -, rfl⟩ := of_remove? removed
    intro client session hsession
    rw [Sessions.get?_remove] at hsession
    split at hsession
    · cases hsession
    · exact h client session hsession
  | subscribe payload subscribed =>
    obtain ⟨old, hold, rfl⟩ := of_subscribe? subscribed
    exact hput _ (subscribe _ _ _ payload (h _ _ hold))
  | unsubscribe _ unsubscribed =>
    obtain ⟨old, -, hold, -, rfl⟩ := of_unsubscribe? unsubscribed
    exact hput _ (unsubscribe _ _ (h _ _ hold))

end Broker

/-! ## Sequences of packets -/

/-- What every change by a packet with some property keeps, is kept by all packets that have it. -/
theorem processAll_induction {strategy : Strategy} (allowed : Packet → Prop) (Inv : Broker → Prop)
    (step : ∀ {b p b'}, allowed p → Inv b → Protocol.Change strategy b p b' → Inv b')
    {b : Broker} {ps : List Packet} (hb : Inv b) (hps : ∀ p ∈ ps, allowed p) :
    Inv (processAll strategy b ps) := by
  induction ps generalizing b with
  | nil => exact hb
  | cons p ps ih =>
    have hstep := step (hps p List.mem_cons_self) hb (Protocol.change_process strategy b p)
    exact ih hstep fun q hq => hps q (List.mem_cons_of_mem p hq)

end Geocast
