import Geocast.Sessions

/-!
# What the operations on sessions do

`Sessions.get?` is the view: the session of each client. An operation in the name of one client
leaves the sessions of the others as they are.
-/
namespace Geocast

namespace Session

@[simp] theorem client_subscribe (s : Session) (topic : Topic) (geofence : Geofence) :
    (s.subscribe topic geofence).1.client = s.client := by
  unfold subscribe
  split <;> rfl

theorem find?_subscribe_self (s : Session) (topic : Topic) (geofence : Geofence) :
    (s.subscribe topic geofence).1.find? topic =
      some ⟨(s.subscribe topic geofence).2, topic, geofence⟩ := by
  unfold subscribe
  split
  next old h =>
    have ht : old.topic = topic := by simpa using List.find?_some h
    simp only [find?, List.find?_map] at h ⊢
    have he : ((fun sub : Subscription => decide (sub.topic = topic)) ∘ fun sub : Subscription =>
        if sub.topic = topic then { sub with geofence := geofence } else sub) =
        fun sub => decide (sub.topic = topic) := by
      funext sub
      by_cases hs : sub.topic = topic <;> simp [hs]
    rw [he, h]
    simp [ht]
  next h =>
    simp only [find?] at h ⊢
    simp [List.find?_append, h]

theorem find?_subscribe_of_ne (s : Session) {topic other : Topic} (geofence : Geofence)
    (h : topic ≠ other) : (s.subscribe topic geofence).1.find? other = s.find? other := by
  unfold subscribe
  split
  next old _ =>
    simp only [find?, List.find?_map]
    have he : ((fun sub : Subscription => decide (sub.topic = other)) ∘ fun sub : Subscription =>
        if sub.topic = topic then { sub with geofence := geofence } else sub) =
        fun sub => decide (sub.topic = other) := by
      funext sub
      by_cases hs : sub.topic = topic <;> simp [hs]
    rw [he]
    cases hf : s.subscriptions.find? fun sub => decide (sub.topic = other) with
    | none => rfl
    | some sub =>
      have ho : sub.topic = other := by simpa using List.find?_some hf
      simp [ho, Ne.symm h]
  next =>
    simp [find?, List.find?_append, h]

theorem find?_unsubscribe (s : Session) (topic other : Topic) :
    (s.unsubscribe topic).find? other = if topic = other then none else s.find? other := by
  simp only [find?, unsubscribe, List.find?_filter]
  by_cases h : topic = other
  · subst h
    simp
  · simp only [h, if_false]
    congr 1
    funext sub
    by_cases hs : sub.topic = other <;> simp [hs, Ne.symm h]

end Session

namespace Sessions

@[simp] theorem get?_empty (id : ClientId) : empty.get? id = none := by
  simp [get?, empty]

theorem get?_put (s : Sessions) (session : Session) (id : ClientId) :
    (s.put session).get? id = if session.client = id then some session else s.get? id := by
  simp [get?, put, Std.TreeMap.getElem?_insert]

theorem get?_put_of_client (s : Sessions) {session : Session} {id : ClientId}
    (h : session.client = id) : (s.put session).get? id = some session := by
  rw [get?_put, if_pos h]

theorem get?_remove (s : Sessions) (id other : ClientId) :
    (s.remove id).get? other = if id = other then none else s.get? other := by
  simp [get?, remove, Std.TreeMap.getElem?_erase]

theorem isConnected_eq (s : Sessions) (id : ClientId) : s.isConnected id = (s.get? id).isSome := by
  simp [get?, isConnected]

end Sessions

end Geocast
