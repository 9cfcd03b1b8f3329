import Geocast.Packet.Wire
import Geocast.Proofs.Topic.Grammar

/-!
# Topics come from text

A topic that is read from text is valid. A broker reads the topics of its packets from text, so it
subscribes nobody to any other filter.

* `Packet.SubscribesToText`: a packet that subscribes does so to a filter that is read from text.
* `Packet.visit`: a client connects and subscribes to such a filter.
* `Wire.subscribesToText_of_decodePacket`: every packet that is read in wire form is like that.
-/
namespace Geocast

/-- A payload that subscribes does so to a filter that is read from text. -/
def Payload.SubscribesToText (payload : Payload) : Prop :=
  ∀ topic geofence, payload = .subscribe topic geofence → ∃ text, Topic.parse text = .ok topic

/-- The square from the origin to half a degree north and east of it. -/
def Geofence.nearOrigin : Geofence :=
  .ofAccepted (.rectangle ⟨0.0, 0.0⟩ ⟨0.5, 0.5⟩) (by decide +kernel)

namespace Packet

/-- A packet that subscribes does so to a filter that is read from text. -/
def SubscribesToText (p : Packet) : Prop := p.payload.SubscribesToText

/-- A client connects and subscribes to everything below `a` that is sent near the origin. -/
def visit (client : ClientId) (location : Location) : List Packet :=
  [⟨client, .connect location⟩, ⟨client, .subscribe ⟨[.normal "a", .multi]⟩ .nearOrigin⟩]

theorem subscribesToText_of_mem_visit {client : ClientId} {location : Location} {p : Packet}
    (hp : p ∈ visit client location) : p.SubscribesToText := by
  simp only [visit, List.mem_cons, List.not_mem_nil, or_false] at hp
  rcases hp with rfl | rfl
  · exact nofun
  · rintro _ _ ⟨⟩
    exact ⟨"a/#", rfl⟩

end Packet

namespace Wire

/-! ## Reading -/

theorem of_bind {α β : Type} {x : Except WireError α} {f : α → Except WireError β} {b : β}
    (h : (x >>= f) = .ok b) : ∃ a, x = .ok a ∧ f a = .ok b := by
  cases x with
  | error e => cases h
  | ok a => exact ⟨a, rfl, h⟩

theorem of_map {α β : Type} {x : Except WireError α} {f : α → β} {b : β}
    (h : x.map f = .ok b) : ∃ a, x = .ok a ∧ f a = b := by
  cases x with
  | error e => cases h
  | ok a => exact ⟨a, rfl, Except.ok.inj h⟩

theorem of_ite {α : Type} {c : Prop} [Decidable c] {x y : Except WireError α} {a : α}
    (h : (if c then x else y) = .ok a) : x = .ok a ∨ y = .ok a := by
  split at h
  · exact .inl h
  · exact .inr h

theorem parse_of_decodeTopic {v : Json} {topic : Topic} (h : decodeTopic v = .ok topic) :
    ∃ text, Topic.parse text = .ok topic := by
  obtain ⟨text, -, hparse⟩ := of_bind h
  split at hparse
  next found hfound =>
    cases hparse
    exact ⟨text, hfound⟩
  next => cases hparse

theorem parse_of_get {members : List (String × Json)} {name : String} {topic : Topic}
    (h : get members name decodeTopic = .ok topic) : ∃ text, Topic.parse text = .ok topic := by
  rw [get] at h
  split at h
  · exact parse_of_decodeTopic h
  · cases h

theorem subscribesToText_of_decodeReasonOnly (make : Reason → Payload) {v : Json}
    {payload : Payload} (hmake : ∀ reason, (make reason).SubscribesToText)
    (h : decodeReasonOnly make v = .ok payload) :
    payload.SubscribesToText := by
  obtain ⟨members, -, h⟩ := of_bind h
  obtain ⟨reason, -, h⟩ := of_bind h
  cases h
  exact hmake reason

theorem subscribesToText_of_decodeLocationOnly (make : Location → Payload) {v : Json}
    {payload : Payload} (hmake : ∀ location, (make location).SubscribesToText)
    (h : decodeLocationOnly make v = .ok payload) :
    payload.SubscribesToText := by
  obtain ⟨members, -, h⟩ := of_bind h
  obtain ⟨location, -, h⟩ := of_bind h
  cases h
  exact hmake location

theorem subscribesToText_of_decodePayloadOf {kind : String} {v : Json} {payload : Payload}
    (h : decodePayloadOf kind v = .ok payload) : payload.SubscribesToText := by
  rcases of_ite h with h | h
  · exact subscribesToText_of_decodeLocationOnly .connect (fun _ => nofun) h
  rcases of_ite h with h | h
  · exact subscribesToText_of_decodeReasonOnly .connack (fun _ => nofun) h
  rcases of_ite h with h | h
  · obtain ⟨members, -, h⟩ := of_bind h
    dsimp only at h
    split at h <;> obtain ⟨broker, -, h⟩ := of_bind h <;> obtain ⟨reason, -, h⟩ := of_bind h <;>
      cases h <;> exact nofun
  rcases of_ite h with h | h
  · exact subscribesToText_of_decodeLocationOnly .pingreq (fun _ => nofun) h
  rcases of_ite h with h | h
  · exact subscribesToText_of_decodeReasonOnly .pingresp (fun _ => nofun) h
  rcases of_ite h with h | h
  · obtain ⟨members, -, h⟩ := of_bind h
    obtain ⟨topic, htopic, h⟩ := of_bind h
    obtain ⟨geofence, -, h⟩ := of_bind h
    cases h
    rintro _ _ ⟨⟩
    exact parse_of_get htopic
  rcases of_ite h with h | h
  · exact subscribesToText_of_decodeReasonOnly .suback (fun _ => nofun) h
  rcases of_ite h with h | h
  · obtain ⟨members, -, h⟩ := of_bind h
    obtain ⟨topic, -, h⟩ := of_bind h
    cases h
    exact nofun
  rcases of_ite h with h | h
  · exact subscribesToText_of_decodeReasonOnly .unsuback (fun _ => nofun) h
  rcases of_ite h with h | h
  · obtain ⟨publication, -, rfl⟩ := of_map h
    exact nofun
  rcases of_ite h with h | h
  · exact subscribesToText_of_decodeReasonOnly .puback (fun _ => nofun) h
  rcases of_ite h with h | h
  · obtain ⟨members, -, h⟩ := of_bind h
    obtain ⟨publication, -, h⟩ := of_bind h
    obtain ⟨publisher, -, h⟩ := of_bind h
    cases h
    exact nofun
  · cases h

theorem subscribesToText_of_decodePayload {place : Place} {v : Json} {payload : Payload}
    (h : decodePayload place v = .ok payload) : payload.SubscribesToText := by
  rw [decodePayload] at h
  split at h
  · obtain ⟨⟨kind, rest⟩, -, h⟩ := of_bind h
    exact subscribesToText_of_decodePayloadOf h
  · cases h

/-- Every packet that is read in wire form subscribes to a filter that is read from text. -/
theorem subscribesToText_of_decodePacket {v : Json} {p : Packet} (h : decodePacket v = .ok p) :
    p.SubscribesToText := by
  obtain ⟨⟨sender, payload⟩, hbeside, h⟩ := of_bind h
  cases h
  rw [decodeBeside.eq_def] at hbeside
  split at hbeside
  · obtain ⟨members, -, hbeside⟩ := of_bind hbeside
    obtain ⟨first, -, hbeside⟩ := of_bind hbeside
    obtain ⟨read, hread, hbeside⟩ := of_bind hbeside
    cases hbeside
    exact subscribesToText_of_decodePayload hread
  · cases hbeside

end Wire

end Geocast
