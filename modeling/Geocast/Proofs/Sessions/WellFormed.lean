import Geocast.Sessions.Lemmas
import Mathlib.Data.List.Nodup

/-!
# What is true of every session

A session starts with nothing and then only its client subscribes, unsubscribes and moves. So its
subscriptions belong to its client, are for different topics, and have different numbers, all of
them handed out before.

* `WellFormed`: these facts.
* `wellFormed_start`, `wellFormed_subscribe`, `wellFormed_unsubscribe`: they hold at first and stay.
* `find?_eq_some_iff`: looking a topic up finds the one subscription to it.
* `Sessions.Owns`: a client owns a subscription to a filter, with an id and a geofence; what an
  operation on sessions does to ownership (`owns_put_iff`, `owns_remove_iff`, `owns_subscribe_iff`,
  `owns_unsubscribe_iff`).
-/
namespace Geocast

namespace Session

/-- The subscriptions are the client's own, for different topics and with different numbers below
the next one. -/
structure WellFormed (s : Session) : Prop where
  owner : ∀ sub ∈ s.subscriptions, sub.id.client = s.client
  fresh : ∀ sub ∈ s.subscriptions, sub.id.seq < s.nextSeq
  seqs : (s.subscriptions.map (·.id.seq)).Nodup
  topics : (s.subscriptions.map (·.topic)).Nodup

theorem wellFormed_start (client : ClientId) (location : Location) :
    (start client location).WellFormed where
  owner sub h := by cases h
  fresh sub h := by cases h
  seqs := List.nodup_nil
  topics := List.nodup_nil

theorem wellFormed_move {s : Session} (h : s.WellFormed) (location : Location) :
    WellFormed { s with location := location } :=
  ⟨h.owner, h.fresh, h.seqs, h.topics⟩

/-- Of a well-formed session the look-up of a topic finds the one subscription to it. -/
theorem find?_eq_some_iff {s : Session} (h : s.WellFormed) {topic : Topic} {sub : Subscription} :
    s.find? topic = some sub ↔ sub ∈ s.subscriptions ∧ sub.topic = topic := by
  constructor
  · intro hfind
    exact ⟨List.mem_of_find?_eq_some hfind, by simpa using List.find?_some hfind⟩
  · rintro ⟨hmem, htopic⟩
    have hsome : (s.find? topic).isSome = true := by
      rw [find?, List.find?_isSome]
      exact ⟨sub, hmem, decide_eq_true htopic⟩
    obtain ⟨found, hfound⟩ := Option.isSome_iff_exists.1 hsome
    have hsame : found.topic = sub.topic := by
      rw [htopic]
      simpa using List.find?_some hfound
    have heq : found = sub :=
      List.inj_on_of_nodup_map h.topics (List.mem_of_find?_eq_some hfound) hmem hsame
    rw [← heq]
    exact hfound

theorem wellFormed_map {s : Session} (h : s.WellFormed) (f : Subscription → Subscription)
    (hid : ∀ sub, (f sub).id = sub.id) (htopic : ∀ sub, (f sub).topic = sub.topic) :
    WellFormed { s with subscriptions := s.subscriptions.map f } where
  owner := by
    simp only [List.mem_map]
    rintro _ ⟨sub, hsub, rfl⟩
    rw [hid]
    exact h.owner sub hsub
  fresh := by
    simp only [List.mem_map]
    rintro _ ⟨sub, hsub, rfl⟩
    rw [hid]
    exact h.fresh sub hsub
  seqs := by
    rw [List.map_map, show (fun sub : Subscription => sub.id.seq) ∘ f = (·.id.seq) from
      funext fun sub => congrArg SubscriptionId.seq (hid sub)]
    exact h.seqs
  topics := by
    rw [List.map_map, show (fun sub : Subscription => sub.topic) ∘ f = (·.topic) from
      funext htopic]
    exact h.topics

theorem wellFormed_append {s : Session} (h : s.WellFormed) {topic : Topic}
    (hnone : s.find? topic = none) (geofence : Geofence) :
    WellFormed { s with
      nextSeq := s.nextSeq + 1
      subscriptions := s.subscriptions ++ [⟨⟨s.client, s.nextSeq⟩, topic, geofence⟩] } where
  owner := by
    simp only [List.mem_append, List.mem_singleton]
    rintro sub (hsub | rfl)
    · exact h.owner sub hsub
    · rfl
  fresh := by
    simp only [List.mem_append, List.mem_singleton]
    rintro sub (hsub | rfl)
    · exact Nat.lt_succ_of_lt (h.fresh sub hsub)
    · exact Nat.lt_succ_self _
  seqs := by
    rw [List.map_append, List.nodup_append]
    refine ⟨h.seqs, List.nodup_singleton _, ?_⟩
    simp only [List.mem_map, List.map_cons, List.map_nil, List.mem_singleton]
    rintro _ ⟨sub, hsub, rfl⟩ _ rfl
    exact Nat.ne_of_lt (h.fresh sub hsub)
  topics := by
    rw [List.map_append, List.nodup_append]
    refine ⟨h.topics, List.nodup_singleton _, ?_⟩
    simp only [List.mem_map, List.map_cons, List.map_nil, List.mem_singleton]
    rintro _ ⟨sub, hsub, rfl⟩ _ rfl heq
    have hsome := (find?_eq_some_iff h).2 ⟨hsub, heq⟩
    rw [hnone] at hsome
    cases hsome

theorem wellFormed_subscribe {s : Session} (h : s.WellFormed) (topic : Topic)
    (geofence : Geofence) : (s.subscribe topic geofence).1.WellFormed := by
  rw [subscribe]
  split
  · refine wellFormed_map h _ ?_ ?_ <;> intro sub <;> split <;> rfl
  next hnone => exact wellFormed_append h hnone geofence

theorem wellFormed_unsubscribe {s : Session} (h : s.WellFormed) (topic : Topic) :
    (s.unsubscribe topic).WellFormed where
  owner sub hsub := h.owner sub (List.mem_filter.1 hsub).1
  fresh sub hsub := h.fresh sub (List.mem_filter.1 hsub).1
  seqs := h.seqs.sublist (List.filter_sublist.map _)
  topics := h.topics.sublist (List.filter_sublist.map _)

theorem client_subscribe_id {s : Session} (h : s.WellFormed) (topic : Topic)
    (geofence : Geofence) : (s.subscribe topic geofence).2.client = s.client := by
  rw [subscribe]
  split
  next old hold => exact h.owner old ((find?_eq_some_iff h).1 hold).1
  next => rfl

end Session

namespace Sessions

/-! ## All sessions -/

/-- Every session is well formed and is found under its client. -/
structure WellFormed (s : Sessions) : Prop where
  keyed : ∀ {client session}, s.get? client = some session → session.client = client
  each : ∀ {client session}, s.get? client = some session → session.WellFormed

theorem wellFormed_empty : empty.WellFormed := by
  refine ⟨?_, ?_⟩ <;> intro client session h <;> rw [get?_empty] at h <;> cases h

theorem wellFormed_put {s : Sessions} (h : s.WellFormed) {session : Session}
    (hsession : session.WellFormed) : (s.put session).WellFormed := by
  refine ⟨?_, ?_⟩ <;> intro client found hfound <;> rw [get?_put] at hfound <;> split at hfound
  next hclient =>
    obtain rfl := Option.some.inj hfound
    exact hclient
  next => exact h.keyed hfound
  next =>
    obtain rfl := Option.some.inj hfound
    exact hsession
  next => exact h.each hfound

theorem wellFormed_remove {s : Sessions} (h : s.WellFormed) (client : ClientId) :
    (s.remove client).WellFormed := by
  refine ⟨?_, ?_⟩ <;> intro other found hfound <;> rw [get?_remove] at hfound <;>
    split at hfound
  next => cases hfound
  next => exact h.keyed hfound
  next => cases hfound
  next => exact h.each hfound

theorem WellFormed.client_id {s : Sessions} (h : s.WellFormed) {client : ClientId}
    {session : Session} (hsession : s.get? client = some session) {sub : Subscription}
    (hsub : sub ∈ session.subscriptions) : sub.id.client = client :=
  ((h.each hsession).owner sub hsub).trans (h.keyed hsession)

/-! ## Ownership -/

/-- The client of an id is connected and has a subscription to the filter with that id and the
geofence. -/
def Owns (s : Sessions) (filter : Topic) (id : SubscriptionId) (geofence : Geofence) : Prop :=
  s.subscription? id.client filter = some ⟨id, filter, geofence⟩

theorem subscription?_eq {s : Sessions} {client : ClientId} {session : Session}
    (h : s.get? client = some session) (topic : Topic) :
    s.subscription? client topic = session.find? topic := by
  rw [subscription?, h]
  rfl

theorem not_owns_empty (filter : Topic) (id : SubscriptionId) (geofence : Geofence) :
    ¬ empty.Owns filter id geofence := by
  rw [Owns, subscription?, get?_empty, Option.bind_none]
  rintro ⟨⟩

/-- Ownership as the list of subscriptions shows it. -/
theorem owns_iff {s : Sessions} (h : s.WellFormed) {filter : Topic} {id : SubscriptionId}
    {geofence : Geofence} :
    s.Owns filter id geofence ↔ ∃ session, s.get? id.client = some session ∧
      ∃ sub ∈ session.subscriptions, sub.topic = filter ∧ sub.id = id ∧
        sub.geofence = geofence := by
  constructor
  · intro hown
    obtain ⟨session, hsession, hfind⟩ := Option.bind_eq_some_iff.1 hown
    obtain ⟨hmem, -⟩ := (Session.find?_eq_some_iff (h.each hsession)).1 hfind
    exact ⟨session, hsession, _, hmem, rfl, rfl, rfl⟩
  · rintro ⟨session, hsession, sub, hsub, rfl, rfl, rfl⟩
    rw [Owns, subscription?_eq hsession]
    exact (Session.find?_eq_some_iff (h.each hsession)).2 ⟨hsub, rfl⟩

theorem owns_of_subscription? {s : Sessions} (h : s.WellFormed) {client : ClientId}
    {filter : Topic} {sub : Subscription} (hsub : s.subscription? client filter = some sub) :
    sub.topic = filter ∧ sub.id.client = client ∧ s.Owns filter sub.id sub.geofence := by
  obtain ⟨session, hsession, hfind⟩ := Option.bind_eq_some_iff.1 hsub
  obtain ⟨hmem, htopic⟩ := (Session.find?_eq_some_iff (h.each hsession)).1 hfind
  have hclient := h.client_id hsession hmem
  refine ⟨htopic, hclient, ?_⟩
  rw [Owns, hclient, hsub, ← htopic]

theorem eq_of_owns {s : Sessions} {client : ClientId} {filter : Topic} {sub : Subscription}
    (hsub : s.subscription? client filter = some sub) {id : SubscriptionId} {geofence : Geofence}
    (hid : id.client = client) (hown : s.Owns filter id geofence) :
    ⟨id, filter, geofence⟩ = sub := by
  rw [Owns, hid, hsub] at hown
  exact (Option.some.inj hown).symm

/-- Only the client of the written session can own anything else than before. -/
theorem owns_put_iff (s : Sessions) (session : Session) {filter : Topic} {id : SubscriptionId}
    {geofence : Geofence} :
    (s.put session).Owns filter id geofence ↔
      if session.client = id.client then session.find? filter = some ⟨id, filter, geofence⟩
      else s.Owns filter id geofence := by
  rw [Owns, subscription?, get?_put]
  split
  · rfl
  · rfl

theorem owns_remove_iff (s : Sessions) (client : ClientId) {filter : Topic} {id : SubscriptionId}
    {geofence : Geofence} :
    (s.remove client).Owns filter id geofence ↔
      s.Owns filter id geofence ∧ id.client ≠ client := by
  rw [Owns, subscription?, get?_remove]
  split
  next h => simp [h]
  next h => exact ⟨fun hown => ⟨hown, Ne.symm h⟩, And.left⟩

/-- Subscribing changes what the client owns at that filter. -/
theorem owns_subscribe_iff {s : Sessions} (h : s.WellFormed) {client : ClientId}
    {session : Session} (hsession : s.get? client = some session) (topic : Topic)
    (new : Geofence) {filter : Topic} {id : SubscriptionId} {geofence : Geofence} :
    (s.put (session.subscribe topic new).1).Owns filter id geofence ↔
      (s.Owns filter id geofence ∧ (filter = topic → id.client ≠ client)) ∨
        filter = topic ∧ (session.subscribe topic new).2 = id ∧ geofence = new := by
  have hclient := h.keyed hsession
  have hown : (session.subscribe topic new).2.client = client :=
    (Session.client_subscribe_id (h.each hsession) topic new).trans hclient
  rw [owns_put_iff, Session.client_subscribe, hclient]
  by_cases hid : client = id.client
  · rw [if_pos hid]
    by_cases htopic : filter = topic
    · subst htopic
      rw [Session.find?_subscribe_self, Option.some.injEq, Subscription.mk.injEq]
      constructor
      · rintro ⟨heq, -, hnew⟩
        exact .inr ⟨rfl, heq, hnew.symm⟩
      · rintro (⟨-, hne⟩ | ⟨-, heq, rfl⟩)
        · exact absurd hid.symm (hne rfl)
        · exact ⟨heq, rfl, rfl⟩
    · rw [Session.find?_subscribe_of_ne _ _ (Ne.symm htopic), Owns, ← hid,
        subscription?_eq hsession]
      exact ⟨fun hfind => .inl ⟨hfind, fun heq => absurd heq htopic⟩,
        fun hor => hor.elim And.left fun hnew => absurd hnew.1 htopic⟩
  · rw [if_neg hid]
    constructor
    · intro howns
      exact .inl ⟨howns, fun _ => Ne.symm hid⟩
    · rintro (⟨howns, -⟩ | ⟨-, rfl, -⟩)
      · exact howns
      · exact absurd hown.symm hid

theorem owns_unsubscribe_iff {s : Sessions} (h : s.WellFormed) {client : ClientId}
    {session : Session} (hsession : s.get? client = some session) (topic : Topic)
    {filter : Topic} {id : SubscriptionId} {geofence : Geofence} :
    (s.put (session.unsubscribe topic)).Owns filter id geofence ↔
      s.Owns filter id geofence ∧ (filter = topic → id.client ≠ client) := by
  have hclient : session.client = client := h.keyed hsession
  rw [owns_put_iff, show (session.unsubscribe topic).client = client from hclient]
  by_cases hid : client = id.client
  · rw [if_pos hid, Session.find?_unsubscribe, Owns, ← hid, subscription?_eq hsession]
    by_cases htopic : topic = filter
    · simp [htopic]
    · simp [htopic, Ne.symm htopic]
  · rw [if_neg hid]
    exact ⟨fun hown => ⟨hown, fun _ => Ne.symm hid⟩, And.left⟩

end Sessions

end Geocast
