import Geocast.Proofs.FilterTree.Placed
import Geocast.Proofs.FilterTree.Reflects
import Geocast.Proofs.Packet.Topics
import Geocast.Proofs.Protocol.Changes
import Geocast.Proofs.Sessions.WellFormed

/-!
# Sessions and grids stay together

Who owns which subscription is written in the sessions. The grids of the filter tree repeat it by
cell, so that it can be looked up by place, and every change of a session must be repeated there:
when a subscription begins, moves or ends, and when a session ends with all it has.

* `Consistent`: sessions are well formed, nodes know their place, every grid reflects who owns what
  at its filter, and every subscription has its node.
* `consistent_start`, `consistent_change`: a broker starts so, and every change keeps it.
* `consistent_processAll`: it holds after every sequence of packets, under both strategies.
* `Consistent.holds_iff`, `Consistent.counted`, `Consistent.exists_node`: what that says of a node.
* `grids_hold_subscriptions`: after every sequence of packets the grids hold exactly the
  subscriptions of connected clients, and count them.
-/
namespace Geocast

namespace Broker

/-- The sessions of a broker and the grids of its filter tree say the same. -/
structure Consistent (b : Broker) : Prop where
  sessions : b.sessions.WellFormed
  placed : b.filters.Placed
  reflects : b.filters.Reflects b.sessions.Owns
  planted : ∀ {filter id geofence}, b.sessions.Owns filter id geofence →
    (b.filters.grid? filter).isSome = true

theorem consistent_start (granularity : Nat) (federation : Federation) :
    (start granularity federation).Consistent where
  sessions := Sessions.wellFormed_empty
  placed := FilterTree.placed_empty granularity
  reflects := FilterTree.reflects_empty granularity Sessions.not_owns_empty
  planted howns := absurd howns (Sessions.not_owns_empty _ _ _)

variable {b b' : Broker} {client : ClientId}

/-! ## Sessions that begin and move -/

/-- Writing a session that has the subscriptions of the one before leaves all ownership as it is. -/
theorem consistent_put (h : b.Consistent) {session : Session} (hwell : session.WellFormed)
    (hsame : ∀ topic, session.find? topic = b.sessions.subscription? session.client topic) :
    Consistent { b with sessions := b.sessions.put session } := by
  have howns : ∀ filter id geofence, b.sessions.Owns filter id geofence ↔
      (b.sessions.put session).Owns filter id geofence := by
    intro filter id geofence
    rw [Sessions.owns_put_iff]
    split
    next hid => rw [hsame, hid, Sessions.Owns]
    next => rfl
  refine ⟨Sessions.wellFormed_put h.sessions hwell, h.placed, h.reflects.congr howns, ?_⟩
  intro filter id geofence hown
  exact h.planted ((howns filter id geofence).2 hown)

theorem consistent_begin (h : b.Consistent) (location : Location)
    (habsent : b.sessions.get? client = none) :
    Consistent { b with sessions := b.sessions.put (.start client location) } := by
  refine consistent_put h (Session.wellFormed_start client location) fun topic => ?_
  rw [Sessions.subscription?, show (Session.start client location).client = client from rfl,
    habsent]
  rfl

theorem consistent_move (h : b.Consistent) {session : Session} (location : Location)
    (hpresent : b.sessions.get? client = some session) :
    Consistent { b with sessions := b.sessions.put { session with location := location } } := by
  have hwell := h.sessions.each hpresent
  refine consistent_put h (Session.wellFormed_move hwell location) fun topic => ?_
  have hclient : session.client = client := h.sessions.keyed hpresent
  rw [hclient, Sessions.subscription?_eq hpresent]
  rfl

/-! ## Sessions that end -/

/-- Withdrawing subscriptions takes their ids out, each from the grid at its filter. -/
theorem reflects_foldl_withdraw {owns : Topic → SubscriptionId → Geofence → Prop}
    {t : FilterTree} (h : t.Reflects owns) {subs : List Subscription}
    (hone : ∀ sub ∈ subs, ∀ other, owns sub.topic sub.id other → other = sub.geofence) :
    (subs.foldl withdraw t).Reflects fun topic id geofence =>
      owns topic id geofence ∧ ∀ sub ∈ subs, ¬ (sub.topic = topic ∧ sub.id = id) := by
  induction subs generalizing t owns with
  | nil =>
    refine h.congr fun topic id geofence => ?_
    simp only [List.not_mem_nil, false_implies, implies_true, and_true]
  | cons sub subs ih =>
    have hfirst := FilterTree.reflects_erase h (hone sub List.mem_cons_self)
    refine (ih hfirst fun other hother geofence howns => ?_).congr fun topic id geofence => ?_
    · exact hone other (List.mem_cons_of_mem sub hother) geofence howns.1
    · simp only [List.forall_mem_cons, and_assoc]

theorem placed_foldl_withdraw {t : FilterTree} (h : t.Placed) (subs : List Subscription) :
    (subs.foldl withdraw t).Placed := by
  induction subs generalizing t with
  | nil => exact h
  | cons sub subs ih => exact ih (h.modify sub.topic _)

theorem isSome_grid?_foldl_withdraw (t : FilterTree) (subs : List Subscription) (topic : Topic) :
    ((subs.foldl withdraw t).grid? topic).isSome = (t.grid? topic).isSome := by
  induction subs generalizing t with
  | nil => rfl
  | cons sub subs ih => rw [List.foldl_cons, ih, withdraw, FilterTree.isSome_grid?_modify]

theorem consistent_remove (h : b.Consistent) (hremoved : b.remove? client = some b') :
    b'.Consistent := by
  obtain ⟨session, hsession, rfl⟩ := of_remove? hremoved
  have hwell := h.sessions.each hsession
  -- The withdrawn ids are all that the client owns, and nobody else owns any of them.
  have howner : ∀ sub ∈ session.subscriptions, sub.id.client = client :=
    fun _ => h.sessions.client_id hsession
  have hfind : ∀ sub ∈ session.subscriptions,
      b.sessions.subscription? client sub.topic = some sub := by
    intro sub hsub
    rw [Sessions.subscription?_eq hsession]
    exact (Session.find?_eq_some_iff hwell).2 ⟨hsub, rfl⟩
  have hone : ∀ sub ∈ session.subscriptions, ∀ other,
      b.sessions.Owns sub.topic sub.id other → other = sub.geofence := by
    intro sub hsub other hown
    have heq := Sessions.eq_of_owns (hfind sub hsub) (howner sub hsub) hown
    exact congrArg Subscription.geofence heq
  have hwithdrawn := reflects_foldl_withdraw h.reflects hone
  refine ⟨Sessions.wellFormed_remove h.sessions client, placed_foldl_withdraw h.placed _,
    hwithdrawn.congr fun topic id geofence => ?_, ?_⟩
  · rw [Sessions.owns_remove_iff]
    refine and_congr_right fun hown => ⟨fun hall hid => ?_, fun hne sub hsub heq => ?_⟩
    · rw [Sessions.Owns, hid, Sessions.subscription?_eq hsession] at hown
      exact hall _ ((Session.find?_eq_some_iff hwell).1 hown).1 ⟨rfl, rfl⟩
    · rw [← heq.2] at hne
      exact hne (howner sub hsub)
  · intro filter id geofence hown
    rw [isSome_grid?_foldl_withdraw]
    exact h.planted ((Sessions.owns_remove_iff b.sessions client).1 hown).1

/-! ## Subscriptions that begin, move and end -/

theorem reflects_without (h : b.Consistent) (client : ClientId) {topic : Topic} {grid : Grid}
    (hgrid : grid.Reflects (b.sessions.Owns topic)) :
    (b.without client topic grid).Reflects
      fun id geofence => b.sessions.Owns topic id geofence ∧ id.client ≠ client := by
  rw [without]
  split
  next old hold =>
    obtain ⟨htopic, hclient, hown⟩ := Sessions.owns_of_subscription? h.sessions hold
    have hone : ∀ other, b.sessions.Owns topic old.id other → other = old.geofence := by
      intro other hother
      exact congrArg Subscription.geofence (Sessions.eq_of_owns hold hclient hother)
    refine (Grid.reflects_erase hgrid hone).congr fun id geofence => ?_
    refine and_congr_right fun hother => not_congr ⟨?_, fun hid => ?_⟩
    · rintro rfl
      exact hclient
    · exact (congrArg Subscription.id (Sessions.eq_of_owns hold hid hother)).symm
  next hnone =>
    refine hgrid.congr fun id geofence => ⟨fun hown => ⟨hown, fun hid => ?_⟩, And.left⟩
    rw [Sessions.Owns, hid, hnone] at hown
    cases hown

theorem consistent_subscribe (h : b.Consistent) {topic : Topic} {geofence : Geofence}
    {sub : SubscriptionId} (hsubscribed : b.subscribe? client topic geofence = some (b', sub)) :
    b'.Consistent := by
  obtain ⟨session, hsession, rfl⟩ := of_subscribe? hsubscribed
  have howns : ∀ {filter id other},
      (b.sessions.put (session.subscribe topic geofence).1).Owns filter id other ↔ _ :=
    Sessions.owns_subscribe_iff h.sessions hsession topic geofence
  have hwell := Session.wellFormed_subscribe (h.sessions.each hsession) topic geofence
  refine ⟨Sessions.wellFormed_put h.sessions hwell, h.placed.create topic _, ?_, ?_⟩
  · refine FilterTree.reflects_create h.reflects h.planted (fun hgrid => ?_) ?_
    · have hnew := Grid.reflects_insert (reflects_without h client hgrid)
        (session.subscribe topic geofence).2 geofence
      refine hnew.congr fun x other => ?_
      rw [howns]
      simp only [true_implies, true_and]
    · intro filter htopic x other
      rw [howns]
      simp only [htopic, false_implies, and_true, false_and, or_false]
  · intro filter x other hown
    rw [FilterTree.isSome_grid?_create]
    rcases howns.1 hown with hold | ⟨rfl, -, -⟩
    · exact .inr (h.planted hold.1)
    · exact .inl (List.prefix_refl _)

theorem consistent_unsubscribe (h : b.Consistent) {topic : Topic}
    (hunsubscribed : b.unsubscribe? client topic = some b') : b'.Consistent := by
  obtain ⟨session, sub, hsession, hfind, rfl⟩ := of_unsubscribe? hunsubscribed
  have hsub := (Sessions.subscription?_eq hsession topic).trans hfind
  obtain ⟨htopic, hclient, hown⟩ := Sessions.owns_of_subscription? h.sessions hsub
  have howns : ∀ {filter id other},
      (b.sessions.put (session.unsubscribe topic)).Owns filter id other ↔ _ :=
    Sessions.owns_unsubscribe_iff h.sessions hsession topic
  have hone : ∀ other, b.sessions.Owns sub.topic sub.id other → other = sub.geofence := by
    intro other hother
    rw [htopic] at hother
    exact congrArg Subscription.geofence (Sessions.eq_of_owns hsub hclient hother)
  have hwithdrawn := FilterTree.reflects_erase h.reflects hone
  refine ⟨?_, h.placed.modify sub.topic _, hwithdrawn.congr fun filter x other => ?_, ?_⟩
  · exact Sessions.wellFormed_put h.sessions
      (Session.wellFormed_unsubscribe (h.sessions.each hsession) topic)
  · rw [howns]
    refine and_congr_right fun hother => ⟨fun hne hfilter hid => ?_, fun hne heq => ?_⟩
    · subst hfilter
      have heq := Sessions.eq_of_owns hsub hid hother
      exact hne ⟨htopic, (congrArg Subscription.id heq).symm⟩
    · refine hne (heq.1.symm.trans htopic) ?_
      rw [← heq.2]
      exact hclient
  · intro filter x other hother
    rw [withdraw, FilterTree.isSome_grid?_modify]
    exact h.planted (howns.1 hother).1

/-! ## Runs -/

theorem consistent_change {strategy : Strategy} {p : Packet} (h : b.Consistent)
    (hchange : Protocol.Change strategy b p b') : b'.Consistent := by
  cases hchange with
  | stay => exact h
  | start _ _ absent => exact consistent_begin h _ absent
  | move _ _ present => exact consistent_move h _ present
  | stop removed => exact consistent_remove h removed
  | subscribe _ subscribed => exact consistent_subscribe h subscribed
  | unsubscribe _ unsubscribed => exact consistent_unsubscribe h unsubscribed

theorem consistent_processAll (strategy : Strategy) (granularity : Nat) (federation : Federation)
    (ps : List Packet) :
    (processAll strategy (start granularity federation) ps).Consistent :=
  processAll_induction (fun _ => True) Consistent (fun _ h hchange => consistent_change h hchange)
    (consistent_start granularity federation) fun _ _ => trivial

/-! ## Nodes -/

/-- The client of an id is connected and has a subscription to the filter of a node, with that id
and a geofence that touches the cell. -/
def Enters (b : Broker) (n : Node) (c : Cell) (id : SubscriptionId) : Prop :=
  ∃ session, b.sessions.get? id.client = some session ∧
    ∃ sub ∈ session.subscriptions, sub.topic = n.filter ∧ sub.id = id ∧
      c ∈ n.grid.cellsFor sub.geofence.box

theorem Consistent.reflects_node (h : b.Consistent) {filter : Topic} {n : Node}
    (hn : b.filters.get? filter = some n) : n.grid.Reflects (b.sessions.Owns n.filter) := by
  rw [h.placed.filter_of_get? hn]
  exact h.reflects filter n.grid (FilterTree.grid?_of_get? hn)

theorem Consistent.holds_iff (h : b.Consistent) {filter : Topic} {n : Node}
    (hn : b.filters.get? filter = some n) (c : Cell) (id : SubscriptionId) :
    n.grid.holds c id = true ↔ b.Enters n c id := by
  rw [(h.reflects_node hn).holds_iff]
  constructor
  · rintro ⟨geofence, hown, hc⟩
    obtain ⟨session, hsession, sub, hsub, htopic, hid, rfl⟩ := (Sessions.owns_iff h.sessions).1 hown
    exact ⟨session, hsession, sub, hsub, htopic, hid, hc⟩
  · rintro ⟨session, hsession, sub, hsub, htopic, hid, hc⟩
    have hown := (Sessions.owns_iff h.sessions).2
      ⟨session, hsession, sub, hsub, htopic, hid, rfl⟩
    exact ⟨sub.geofence, hown, hc⟩

theorem Consistent.counted (h : b.Consistent) {filter : Topic} {n : Node}
    (hn : b.filters.get? filter = some n) :
    ∃ entries : Finset (Cell × SubscriptionId),
      (∀ c id, (c, id) ∈ entries ↔ b.Enters n c id) ∧ n.grid.memberships = entries.card := by
  obtain ⟨entries, hmem, hcard⟩ := (h.reflects_node hn).counted
  refine ⟨entries, fun c id => ?_, hcard⟩
  rw [hmem, h.holds_iff hn]

theorem Consistent.exists_node (h : b.Consistent) {session : Session}
    (hsession : b.sessions.get? client = some session) {sub : Subscription}
    (hsub : sub ∈ session.subscriptions) : ∃ n, b.filters.get? sub.topic = some n := by
  have hclient := h.sessions.client_id hsession hsub
  have hown : b.sessions.Owns sub.topic sub.id sub.geofence := by
    rw [Sessions.owns_iff h.sessions, hclient]
    exact ⟨session, hsession, sub, hsub, rfl, rfl, rfl⟩
  exact Option.isSome_iff_exists.1 ((b.filters.isSome_get? sub.topic).trans (h.planted hown))

/-- After every sequence of packets, under both strategies: a node's grid holds an id in a cell if
and only if a connected client has that subscription to the node's filter and its geofence touches
the cell; the node's counter is the number of these entries; and every subscription has its node. -/
theorem grids_hold_subscriptions (strategy : Strategy) (granularity : Nat)
    (federation : Federation) (ps : List Packet) :
    let b := processAll strategy (start granularity federation) ps
    (∀ filter n, b.filters.get? filter = some n →
      (∀ c id, n.grid.holds c id = true ↔ b.Enters n c id) ∧
      ∃ entries : Finset (Cell × SubscriptionId),
        (∀ c id, (c, id) ∈ entries ↔ b.Enters n c id) ∧ n.grid.memberships = entries.card) ∧
    ∀ client session, b.sessions.get? client = some session →
      ∀ sub ∈ session.subscriptions, ∃ n, b.filters.get? sub.topic = some n := by
  intro b
  have h : b.Consistent := consistent_processAll strategy granularity federation ps
  refine ⟨fun filter n hn => ⟨h.holds_iff hn, h.counted hn⟩, ?_⟩
  intro client session hsession sub hsub
  exact h.exists_node hsession hsub

/-- What a visitor has subscribed to is entered in the cell at the origin. -/
theorem grids_hold_visitor :
    let b := processAll .standalone (start 1 (.world ⟨"b", "h", 1⟩))
      (Packet.visit "x" ⟨0.1, 0.1⟩)
    ∃ n, b.filters.get? ⟨[.normal "a", .multi]⟩ = some n ∧ b.Enters n ⟨0, 0⟩ ⟨"x", 0⟩ := by
  intro b
  have hany : (b.filters.get? ⟨[.normal "a", .multi]⟩).any
      (fun n => n.grid.holds ⟨0, 0⟩ ⟨"x", 0⟩) = true := by decide +kernel
  obtain ⟨n, hn, hholds⟩ := (Option.any_eq_true _ _).1 hany
  exact ⟨n, hn, ((grids_hold_subscriptions _ _ _ _).1 _ n hn).1 _ _ |>.1 hholds⟩

end Broker

end Geocast
