import Geocast.Proofs.Protocol.Changes
import Geocast.Proofs.Sessions.WellFormed

/-!
# Operations on sessions

A session changes when the broker answers a packet, and when an operation on the sessions is called
directly, past the grids. Either is in the name of one client and touches the session of nobody
else.

* `Op`, `apply`: the operations in the name of a client; `Op.next`: what one makes of its session.
* `apply_cases`: what an operation can do; `get?_apply`: what becomes of every session;
  `wellFormed_apply`: sessions stay well formed.
* `Action`, `Broker.act`: packets and direct operations, in any order.
-/
namespace Geocast

namespace Sessions

/-! ## One operation -/

/-- An operation on the session of a client. -/
inductive Op where
  | connect (location : Location)
  | remove
  | move (location : Location)
  | subscribe (topic : Topic) (geofence : Geofence)
  | unsubscribe (topic : Topic)

/-- The sessions after an operation in the name of a client; one that is refused leaves them. -/
def apply (s : Sessions) (client : ClientId) : Op → Sessions
  | .connect location => (s.connect? client location).getD s
  | .remove => s.remove client
  | .move location => (s.move? client location).getD s
  | .subscribe topic geofence => ((s.subscribe? client topic geofence).map (·.1)).getD s
  | .unsubscribe topic => s.unsubscribe client topic

/-- The session of a client after an operation in its name. -/
def Op.next (client : ClientId) : Op → Option Session → Option Session
  | .connect location, none => some (.start client location)
  | .connect _, some session => some session
  | .remove, _ => none
  | .move location, session => session.map fun session => { session with location := location }
  | .subscribe topic geofence, session => session.map (·.subscribe topic geofence |>.1)
  | .unsubscribe topic, session => session.map (·.unsubscribe topic)

variable {s : Sessions}

theorem subscribe?_of_get? {client : ClientId} {session : Session}
    (h : s.get? client = some session) (topic : Topic) (geofence : Geofence) :
    s.subscribe? client topic geofence = some (s.put (session.subscribe topic geofence).1,
      (session.subscribe topic geofence).2) := by
  rw [subscribe?, h]
  rfl

/-- An operation leaves the sessions, removes the one of its client, or writes the one that comes
next. -/
theorem apply_cases (h : s.WellFormed) (client : ClientId) (op : Op) :
    (s.apply client op = s ∧ op.next client (s.get? client) = s.get? client) ∨
      (s.apply client op = s.remove client ∧ op.next client (s.get? client) = none) ∨
      ∃ session : Session, session.client = client ∧ session.WellFormed ∧
        s.apply client op = s.put session ∧ op.next client (s.get? client) = some session := by
  cases op with
  | remove => exact .inr (.inl ⟨rfl, rfl⟩)
  | connect location =>
    rw [apply, connect?, isConnected_eq]
    cases s.get? client with
    | none =>
      exact .inr (.inr ⟨_, rfl, Session.wellFormed_start client location, rfl, rfl⟩)
    | some session => exact .inl ⟨rfl, rfl⟩
  | move location =>
    rw [apply, move?]
    cases hsession : s.get? client with
    | none => exact .inl ⟨rfl, rfl⟩
    | some session =>
      have hclient : session.client = client := h.keyed hsession
      have hwell := Session.wellFormed_move (h.each hsession) location
      exact .inr (.inr ⟨{ session with location := location }, hclient, hwell, rfl, rfl⟩)
  | subscribe topic geofence =>
    cases hsession : s.get? client with
    | none =>
      rw [apply, subscribe?, hsession]
      exact .inl ⟨rfl, rfl⟩
    | some session =>
      have hclient := (Session.client_subscribe session topic geofence).trans (h.keyed hsession)
      have hwell := Session.wellFormed_subscribe (h.each hsession) topic geofence
      rw [apply, subscribe?_of_get? hsession]
      exact .inr (.inr ⟨_, hclient, hwell, rfl, rfl⟩)
  | unsubscribe topic =>
    rw [apply, unsubscribe]
    cases hsession : s.get? client with
    | none => exact .inl ⟨rfl, rfl⟩
    | some session =>
      have hclient : session.client = client := h.keyed hsession
      have hwell := Session.wellFormed_unsubscribe (h.each hsession) topic
      exact .inr (.inr ⟨session.unsubscribe topic, hclient, hwell, rfl, rfl⟩)

theorem get?_apply (h : s.WellFormed) (client : ClientId) (op : Op) (other : ClientId) :
    (s.apply client op).get? other =
      if client = other then op.next client (s.get? client) else s.get? other := by
  rcases apply_cases h client op with
    ⟨hsame, hnext⟩ | ⟨hremoved, hnext⟩ | ⟨session, hclient, -, hput, hnext⟩
  · rw [hsame, hnext]
    split
    next heq => rw [heq]
    next => rfl
  · rw [hremoved, hnext, get?_remove]
  · rw [hput, hnext, get?_put, hclient]

theorem wellFormed_apply (h : s.WellFormed) (client : ClientId) (op : Op) :
    (s.apply client op).WellFormed := by
  rcases apply_cases h client op with
    ⟨hsame, -⟩ | ⟨hremoved, -⟩ | ⟨session, -, hwell, hput, -⟩
  · rw [hsame]
    exact h
  · rw [hremoved]
    exact wellFormed_remove h client
  · rw [hput]
    exact wellFormed_put h hwell

end Sessions

/-! ## Packets and direct operations -/

/-- What can happen to a broker: a packet, or an operation that is called on its sessions. -/
inductive Action where
  | packet (p : Packet)
  | call (client : ClientId) (op : Sessions.Op)

namespace Broker

def act (strategy : Strategy) (b : Broker) : Action → Broker
  | .packet p => (process strategy b p).broker
  | .call client op => { b with sessions := b.sessions.apply client op }

/-- The state after a sequence of actions. -/
def actAll (strategy : Strategy) (b : Broker) (as : List Action) : Broker :=
  as.foldl (act strategy) b

/-- To the sessions a packet is at most one operation in the name of its sender, and it is to
subscribe only if the packet says so. -/
theorem sessions_process (strategy : Strategy) (b : Broker) (p : Packet) :
    (process strategy b p).broker.sessions = b.sessions ∨
      ∃ op, (process strategy b p).broker.sessions = b.sessions.apply p.sender op ∧
        ∀ topic geofence, op = .subscribe topic geofence →
          p.payload = .subscribe topic geofence := by
  have hchange := Protocol.change_process strategy b p
  generalize (process strategy b p).broker = b' at hchange
  cases hchange with
  | stay => exact .inl rfl
  | @start location _ _ absent =>
    refine .inr ⟨.connect location, ?_, by simp⟩
    rw [Sessions.apply, Sessions.connect?, Sessions.isConnected_eq, absent]
    rfl
  | @move location _ _ _ present =>
    refine .inr ⟨.move location, ?_, by simp⟩
    rw [Sessions.apply, Sessions.move?, present]
    rfl
  | stop removed =>
    obtain ⟨_, -, rfl⟩ := of_remove? removed
    exact .inr ⟨.remove, rfl, by simp⟩
  | @subscribe topic geofence _ _ payload subscribed =>
    obtain ⟨session, hsession, rfl⟩ := of_subscribe? subscribed
    refine .inr ⟨.subscribe topic geofence, ?_, ?_⟩
    · rw [Sessions.apply, Sessions.subscribe?_of_get? hsession]
      rfl
    · intro _ _ heq
      cases heq
      exact payload
  | @unsubscribe topic _ _ unsubscribed =>
    obtain ⟨session, _, hsession, -, rfl⟩ := of_unsubscribe? unsubscribed
    refine .inr ⟨.unsubscribe topic, ?_, by simp⟩
    rw [Sessions.apply, Sessions.unsubscribe, hsession]

end Broker

end Geocast
