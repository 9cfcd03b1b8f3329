import Geocast.Broker
import Geocast.Sessions.Lemmas

/-!
# Receivers are found once

The search for receivers goes through the nodes that match a topic, and through the subscriptions
near the publisher in the grid of each. A client can come up many times, and it is found at the
first subscription that is wanted, not at the first that comes up: one whose geofence turns out not
to contain the publisher must not hide a later one.

* `Found.Holds`: what was found is a set of clients, each listed once.
* `holds_consider`, `holds_considerNode`, `holds_foldl_considerNode`: one subscription, one node and
  all nodes add the clients of what is wanted, and no others.
* `mem_receivers_iff`, `nodup_receivers`: so the receivers are these clients, each once.
-/
namespace Geocast

namespace Broker

/-- The clients with some property were found: the set has them, and the list has each once. -/
structure Found.Holds (found : Found) (P : ClientId → Prop) : Prop where
  seen : ∀ c, found.seen.contains c = true ↔ P c
  listed : ∀ c, c ∈ found.clients ↔ P c
  nodup : found.clients.Nodup

theorem Found.holds_none : (⟨∅, []⟩ : Found).Holds fun _ => False where
  seen c := by simp
  listed c := by simp
  nodup := List.nodup_nil

theorem Found.Holds.congr {found : Found} {P Q : ClientId → Prop} (h : found.Holds P)
    (hiff : ∀ c, P c ↔ Q c) : found.Holds Q :=
  ⟨fun c => (h.seen c).trans (hiff c), fun c => (h.listed c).trans (hiff c), h.nodup⟩

theorem Found.Holds.add {found : Found} {P : ClientId → Prop} (h : found.Holds P)
    {client : ClientId} (hnew : ¬ P client) :
    (⟨found.seen.insert client, found.clients ++ [client]⟩ : Found).Holds
      fun c => P c ∨ client = c where
  seen c := by
    rw [Std.TreeSet.contains_insert, Bool.or_eq_true, h.seen, or_comm, beq_iff_eq,
      Std.compare_eq_iff_eq]
  listed c := by
    rw [List.mem_append, h.listed, List.mem_singleton, eq_comm]
  nodup := by
    refine List.nodup_append.2 ⟨h.nodup, List.pairwise_singleton _ client, ?_⟩
    rintro c hc _ hother rfl
    rw [List.mem_singleton.1 hother] at hc
    exact hnew ((h.listed client).1 hc)

variable {b : Broker} {publication : Publication} {publisher : Location} {client : ClientId}
  {found : Found} {P : ClientId → Prop}

/-! ## The loop -/

/-- A subscription adds its client if it is wanted. If the client was found before, it does not
matter whether this one is wanted. -/
theorem holds_consider (h : found.Holds P) (filter : Topic) (id : SubscriptionId) :
    (b.consider publication publisher filter found id).Holds fun c =>
      P c ∨ b.wants publication publisher filter id = true ∧ id.client = c := by
  rw [consider]
  split
  next hseen =>
    refine h.congr fun c => ⟨.inl, ?_⟩
    rintro (hc | ⟨-, rfl⟩)
    · exact hc
    · exact (h.seen _).1 hseen
  next hunseen =>
    split
    next hwants =>
      have hnew : ¬ P id.client := fun hc => hunseen ((h.seen _).2 hc)
      exact (h.add hnew).congr fun c => by rw [and_iff_right hwants]
    next hwants => exact h.congr fun c => by simp [hwants]

theorem holds_foldl_consider (h : found.Holds P) (filter : Topic) (ids : List SubscriptionId) :
    (ids.foldl (b.consider publication publisher filter) found).Holds fun c =>
      P c ∨ ∃ id ∈ ids, b.wants publication publisher filter id = true ∧ id.client = c := by
  induction ids generalizing found P with
  | nil => exact h.congr fun c => by simp
  | cons id ids ih =>
    refine (ih (holds_consider h filter id)).congr fun c => ?_
    simp only [List.mem_cons, exists_eq_or_imp, or_assoc]

/-- The clients of what is wanted in the grid of a node. -/
def WantedAt (b : Broker) (publication : Publication) (publisher : Location) (n : Node)
    (client : ClientId) : Prop :=
  ∃ id ∈ n.grid.lookup publisher,
    b.wants publication publisher n.filter id = true ∧ id.client = client

theorem holds_considerNode (h : found.Holds P) (n : Node) :
    (b.considerNode publication publisher found n).Holds fun c =>
      P c ∨ b.WantedAt publication publisher n c :=
  holds_foldl_consider h n.filter (n.grid.lookup publisher)

theorem holds_foldl_considerNode (h : found.Holds P) (ns : List Node) :
    (ns.foldl (b.considerNode publication publisher) found).Holds fun c =>
      P c ∨ ∃ n ∈ ns, b.WantedAt publication publisher n c := by
  induction ns generalizing found P with
  | nil => exact h.congr fun c => by simp
  | cons n ns ih =>
    refine (ih (holds_considerNode h n)).congr fun c => ?_
    simp only [List.mem_cons, exists_eq_or_imp, or_assoc]

/-! ## What is found -/

theorem holds_receivers (b : Broker) (publication : Publication) (publisher : Location) :
    ((b.filters.matching publication.topic).foldl (b.considerNode publication publisher)
      ⟨∅, []⟩).Holds fun c =>
        ∃ n ∈ b.filters.matching publication.topic, b.WantedAt publication publisher n c :=
  (holds_foldl_considerNode Found.holds_none _).congr fun _ => or_iff_right not_false

theorem mem_receivers_iff :
    client ∈ b.receivers publication publisher ↔
      ∃ n ∈ b.filters.matching publication.topic, ∃ id ∈ n.grid.lookup publisher,
        b.wants publication publisher n.filter id = true ∧ id.client = client :=
  (holds_receivers b publication publisher).listed client

theorem nodup_receivers (b : Broker) (publication : Publication) (publisher : Location) :
    (b.receivers publication publisher).Nodup :=
  (holds_receivers b publication publisher).nodup

theorem wants_iff {filter : Topic} {id : SubscriptionId} :
    b.wants publication publisher filter id = true ↔
      ∃ session sub, b.sessions.get? id.client = some session ∧ session.find? filter = some sub ∧
        sub.id = id ∧ publication.geofence.contains session.location = true ∧
        sub.geofence.contains publisher = true := by
  rw [wants]
  cases hsession : b.sessions.get? id.client with
  | none => simp
  | some session =>
    cases hsub : session.find? filter with
    | none => simp [hsub]
    | some sub => simp [hsub, and_assoc]

theorem isConnected_of_mem_receivers (hmem : client ∈ b.receivers publication publisher) :
    b.sessions.isConnected client = true := by
  obtain ⟨n, -, id, -, hwants, rfl⟩ := mem_receivers_iff.1 hmem
  obtain ⟨session, -, hsession, -⟩ := wants_iff.1 hwants
  rw [Sessions.isConnected_eq, hsession]
  rfl

end Broker

end Geocast
