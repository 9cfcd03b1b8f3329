import Geocast.Proofs.Broker.Consistent
import Geocast.Proofs.Broker.Receivers
import Geocast.Proofs.FilterTree.Matching
import Geocast.Proofs.Grid.Order
import Geocast.Proofs.Packet.Topics

/-!
# A publication goes to those whom it concerns

A publication concerns a client that is inside its geofence and has a subscription whose filter
matches the topic and whose geofence contains the publisher. `Broker.receivers` looks at few
subscriptions only: those in the grids of the filters that the walk through the tree finds, in the
cell of the publisher. Here it is compared with a scan of all sessions and all their subscriptions.

* `Concerns`, `scan`: whom a publication concerns, and how to find them slowly.
* `Topical`: every subscription is to a valid filter; it holds when filters come from text.
* `mem_receivers`: of a consistent broker the receivers are those whom the publication concerns.
* `receivers_perm_scan`: the search finds the same as the scan.
* `receivers_exact`: after every sequence of packets, under both strategies.
-/
namespace Geocast

namespace Session

/-- All subscriptions are to valid filters. -/
def Topical (s : Session) : Prop := ∀ sub ∈ s.subscriptions, sub.topic.isValid = true

theorem topical_subscribe {s : Session} (h : s.Topical) {topic : Topic}
    (hvalid : topic.isValid = true) (geofence : Geofence) :
    (s.subscribe topic geofence).1.Topical := by
  rw [subscribe]
  split
  · intro sub hsub
    obtain ⟨old, hold, rfl⟩ := List.mem_map.1 hsub
    split
    · exact h old hold
    · exact h old hold
  · intro sub hsub
    rcases List.mem_append.1 hsub with hold | hnew
    · exact h sub hold
    · rw [List.mem_singleton.1 hnew]
      exact hvalid

theorem topical_unsubscribe {s : Session} (h : s.Topical) (topic : Topic) :
    (s.unsubscribe topic).Topical :=
  fun sub hsub => h sub (List.mem_filter.1 hsub).1

/-- A publication concerns the client of a session. -/
def Concerned (s : Session) (publication : Publication) (publisher : Location) : Prop :=
  publication.geofence.contains s.location = true ∧ ∃ sub ∈ s.subscriptions,
    sub.topic.accepts publication.topic = true ∧ sub.geofence.contains publisher = true

instance (s : Session) (publication : Publication) (publisher : Location) :
    Decidable (s.Concerned publication publisher) :=
  inferInstanceAs (Decidable (_ ∧ ∃ sub ∈ s.subscriptions, _))

end Session

namespace Broker

/-- A publication concerns a client: it is connected, it is inside the publication's geofence, and
it has a subscription that matches the topic and whose geofence contains the publisher. -/
def Concerns (b : Broker) (publication : Publication) (publisher : Location)
    (client : ClientId) : Prop :=
  ∃ session, b.sessions.get? client = some session ∧ session.Concerned publication publisher

/-- The clients whom a publication concerns, found by going through all sessions. -/
def scan (b : Broker) (publication : Publication) (publisher : Location) : List ClientId :=
  (b.sessions.byClient.toList.filter fun (_, session) =>
    session.Concerned publication publisher).map (·.1)

/-- All subscriptions of all clients are to valid filters. -/
def Topical (b : Broker) : Prop :=
  ∀ client session, b.sessions.get? client = some session → session.Topical

theorem topical_change {strategy : Strategy} {b b' : Broker} {p : Packet}
    (hp : p.SubscribesToText) (h : b.Topical) (hchange : Protocol.Change strategy b p b') :
    b'.Topical := by
  refine sessions_change hchange h (fun _ _ sub hsub => ?_) (fun _ _ _ hold => hold) ?_
    fun topic session hold => Session.topical_unsubscribe hold topic
  · cases hsub
  · intro topic geofence session hpayload hold
    obtain ⟨text, htext⟩ := hp topic geofence hpayload
    exact Session.topical_subscribe hold (Topic.isValid_of_parse htext) geofence

variable {b : Broker} {publication : Publication} {publisher : Location} {client : ClientId}

/-! ## The receivers -/

theorem concerns_of_mem_receivers (h : b.Consistent)
    (hmem : client ∈ b.receivers publication publisher) :
    b.Concerns publication publisher client := by
  obtain ⟨n, hn, id, -, hwants, rfl⟩ := mem_receivers_iff.1 hmem
  obtain ⟨session, sub, hsession, hfind, -, hinside, hcontains⟩ := wants_iff.1 hwants
  obtain ⟨hsub, htopic⟩ := (Session.find?_eq_some_iff (h.sessions.each hsession)).1 hfind
  refine ⟨session, hsession, hinside, sub, hsub, ?_, hcontains⟩
  rw [htopic]
  exact (FilterTree.accepts_of_mem_matching h.placed hn).2

/-- The publisher's cell is a cell of every subscription whose geofence contains the publisher, so
the grid of the filter holds its id there. -/
theorem mem_receivers_of_concerns (h : b.Consistent) (htopical : b.Topical)
    (hconcerns : b.Concerns publication publisher client) :
    client ∈ b.receivers publication publisher := by
  obtain ⟨session, hsession, hinside, sub, hsub, haccepts, hcontains⟩ := hconcerns
  have hwell := h.sessions.each hsession
  have hclient := h.sessions.client_id hsession hsub
  obtain ⟨n, hn⟩ := h.exists_node hsession hsub
  have hfilter : n.filter = sub.topic := h.placed.filter_of_get? hn
  have hlast := Topic.multiOnlyLast_of_isValid (htopical client session hsession sub hsub)
  have hbox : sub.geofence.box.contains publisher = true := by
    rw [Geofence.contains, Bool.and_eq_true] at hcontains
    exact hcontains.1
  have hholds : n.grid.holds (n.grid.cellOf publisher) sub.id = true := by
    rw [h.holds_iff hn]
    refine ⟨session, ?_, sub, hsub, hfilter.symm, rfl, Grid.cellOf_mem_cellsFor n.grid hbox⟩
    rw [hclient]
    exact hsession
  refine mem_receivers_iff.2 ⟨n, FilterTree.mem_matching hn hlast haccepts, sub.id,
    (Grid.mem_idsAt _ _ _).2 hholds, ?_, hclient⟩
  rw [wants_iff, hclient, hfilter]
  exact ⟨session, sub, hsession, (Session.find?_eq_some_iff hwell).2 ⟨hsub, rfl⟩, rfl, hinside,
    hcontains⟩

theorem mem_receivers (h : b.Consistent) (htopical : b.Topical) :
    client ∈ b.receivers publication publisher ↔ b.Concerns publication publisher client :=
  ⟨concerns_of_mem_receivers h, mem_receivers_of_concerns h htopical⟩

/-! ## The scan -/

theorem mem_scan :
    client ∈ b.scan publication publisher ↔ b.Concerns publication publisher client := by
  simp only [scan, Concerns, Sessions.get?, List.mem_map, List.mem_filter, Prod.exists,
    Std.TreeMap.mem_toList_iff_getElem?_eq_some, decide_eq_true_eq]
  constructor
  · rintro ⟨_, session, hsession, rfl⟩
    exact ⟨session, hsession⟩
  · rintro ⟨session, hsession⟩
    exact ⟨client, session, hsession, rfl⟩

theorem nodup_scan (b : Broker) (publication : Publication) (publisher : Location) :
    (b.scan publication publisher).Nodup := by
  rw [scan, List.nodup_iff_pairwise_ne, List.pairwise_map]
  refine Std.TreeMap.distinct_keys_toList.imp (fun hne heq => hne ?_) |>.filter _
  rw [heq, Std.compare_self]

theorem receivers_perm_scan (h : b.Consistent) (htopical : b.Topical) :
    (b.receivers publication publisher).Perm (b.scan publication publisher) := by
  refine (List.perm_ext_iff_of_nodup (nodup_receivers b _ _) (nodup_scan b _ _)).2 fun c => ?_
  rw [mem_receivers h htopical, mem_scan]

/-! ## Runs -/

theorem topical_processAll (strategy : Strategy) (granularity : Nat) (federation : Federation)
    {ps : List Packet} (hps : ∀ p ∈ ps, p.SubscribesToText) :
    (processAll strategy (start granularity federation) ps).Topical := by
  refine processAll_induction Packet.SubscribesToText Topical
    (fun hp h hchange => topical_change hp h hchange) ?_ hps
  intro client session hsession
  rw [start, Sessions.get?_empty] at hsession
  cases hsession

/-- After every sequence of packets that subscribe to filters read from text, under both strategies
and for every publication and place of the publisher: the receivers are the connected clients inside
the publication's geofence with a subscription that matches the topic and whose geofence contains
the publisher, each once; a scan of all sessions finds the same. -/
theorem receivers_exact (strategy : Strategy) (granularity : Nat) (federation : Federation)
    (ps : List Packet) (hps : ∀ p ∈ ps, p.SubscribesToText) (publication : Publication)
    (publisher : Location) :
    let b := processAll strategy (start granularity federation) ps
    (∀ client, client ∈ b.receivers publication publisher ↔
      ∃ session, b.sessions.get? client = some session ∧
        publication.geofence.contains session.location = true ∧
        ∃ sub ∈ session.subscriptions, sub.topic.accepts publication.topic = true ∧
          sub.geofence.contains publisher = true) ∧
    (b.receivers publication publisher).Nodup ∧
    (b.receivers publication publisher).Perm (b.scan publication publisher) := by
  intro b
  have h : b.Consistent := consistent_processAll strategy granularity federation ps
  have htopical : b.Topical := topical_processAll strategy granularity federation hps
  exact ⟨fun client => mem_receivers h htopical, nodup_receivers b publication publisher,
    receivers_perm_scan h htopical⟩

/-- The square from the origin to the far side of its cell, nearly. -/
def originCell : Geofence :=
  .ofAccepted (.rectangle ⟨0.0, 0.0⟩ ⟨0.9, 0.9⟩) (by decide +kernel)

/-- A visitor that subscribes to `a` as well. The grids of both filters have it in the cell at the
origin. Of what is published far from the origin in that cell, the subscription that comes up first
wants nothing; near the origin both want it. Both times the visitor receives it once. -/
theorem receivers_exact_second_subscription :
    let ps := Packet.visit "x" ⟨0.1, 0.1⟩ ++ [⟨"x", .subscribe ⟨[.normal "a"]⟩ originCell⟩]
    let b := processAll .standalone (start 1 (.world ⟨"b", "h", 1⟩)) ps
    let publication : Publication := ⟨⟨[.normal "a"]⟩, .world, "news"⟩
    (∀ p ∈ ps, p.SubscribesToText) ∧
      (b.filters.matching publication.topic).map (fun n => (n.grid.lookup ⟨0.7, 0.7⟩).map fun id =>
        b.wants publication ⟨0.7, 0.7⟩ n.filter id) = [[false], [true]] ∧
      b.receivers publication ⟨0.7, 0.7⟩ = ["x"] ∧ b.receivers publication ⟨0.2, 0.2⟩ = ["x"] := by
  intro ps b publication
  have hps : ∀ p ∈ ps, p.SubscribesToText := by
    intro p hp
    rcases List.mem_append.1 hp with hvisit | hmore
    · exact Packet.subscribesToText_of_mem_visit hvisit
    · obtain rfl := List.mem_singleton.1 hmore
      rintro _ _ ⟨⟩
      exact ⟨"a", rfl⟩
  have hexact := fun publisher =>
    (receivers_exact .standalone 1 (.world ⟨"b", "h", 1⟩) ps hps publication publisher).2.2
  have hscan : b.scan publication ⟨0.7, 0.7⟩ = ["x"] ∧ b.scan publication ⟨0.2, 0.2⟩ = ["x"] := by
    decide +kernel
  refine ⟨hps, by decide +kernel, ?_, ?_⟩
  · exact List.perm_singleton.1 (hscan.1 ▸ hexact ⟨0.7, 0.7⟩)
  · exact List.perm_singleton.1 (hscan.2 ▸ hexact ⟨0.2, 0.2⟩)

end Broker

end Geocast
