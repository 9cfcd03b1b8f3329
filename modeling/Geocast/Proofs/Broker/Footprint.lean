import Geocast.Proofs.Broker.Consistent
import Geocast.Proofs.FilterTree.Uniform
import Geocast.Proofs.Grid.Buckets

/-!
# What subscriptions leave behind

Nodes of the filter tree and buckets of its grids are made when a client subscribes, and stay when
the subscription ends. So they tell of all subscriptions that were ever granted.

* `Broker.HasNode`, `Broker.HasBucket`: a filter has a node, a cell has a bucket there.
* `uniform_change`: all grids of a broker's tree keep its granularity.
* `grant?`: what a packet subscribes its sender to, if it has a session.
* `hasNode_process`, `hasBucket_process`: a packet leaves the nodes and buckets of what it
  subscribes its sender to, and takes none away.
-/
namespace Geocast

namespace Broker

variable {strategy : Strategy} {b b' : Broker} {p : Packet} {filter : Topic} {c : Cell}

def HasNode (b : Broker) (filter : Topic) : Prop := (b.filters.grid? filter).isSome = true

def HasBucket (b : Broker) (filter : Topic) (c : Cell) : Prop :=
  ∃ grid, b.filters.grid? filter = some grid ∧ grid.hasBucket c = true

/-- What a payload subscribes its sender to, if the sender has a session. -/
def grant? (s : Option Session) : Payload → Option (Topic × Geofence)
  | .subscribe topic geofence => s.map fun _ => (topic, geofence)
  | _ => none

theorem granularity_without (b : Broker) (client : ClientId) (topic : Topic) (grid : Grid) :
    (b.without client topic grid).granularity = grid.granularity := by
  unfold without
  split
  · exact Grid.granularity_erase grid _ _
  · rfl

theorem hasBucket_without (b : Broker) (client : ClientId) (topic : Topic) (grid : Grid)
    (c : Cell) : (b.without client topic grid).hasBucket c = grid.hasBucket c := by
  unfold without
  split
  · exact Grid.hasBucket_erase grid _ _ c
  · rfl

/-! ## The tree after a change -/

/-- What withdrawing a subscription and granting one keep of a tree, every change keeps. -/
theorem filters_change {P : FilterTree → Prop} (hchange : Protocol.Change strategy b p b')
    (h : P b.filters) (hwithdraw : ∀ t sub, P t → P (withdraw t sub))
    (hgrant : ∀ topic geofence session, p.payload = .subscribe topic geofence →
      b.sessions.get? p.sender = some session →
      P (b.filters.create topic fun grid => (b.without p.sender topic grid).insert
        (session.subscribe topic geofence).2 geofence.box)) : P b'.filters := by
  cases hchange with
  | stay => exact h
  | start => exact h
  | move => exact h
  | stop removed =>
    obtain ⟨session, -, rfl⟩ := of_remove? removed
    dsimp only
    generalize session.subscriptions = subs
    generalize b.filters = t at h
    induction subs generalizing t with
    | nil => exact h
    | cons sub subs ih => exact ih _ (hwithdraw t sub h)
  | subscribe payload subscribed =>
    obtain ⟨session, hsession, rfl⟩ := of_subscribe? subscribed
    exact hgrant _ _ session payload hsession
  | unsubscribe _ unsubscribed =>
    obtain ⟨session, sub, -, -, rfl⟩ := of_unsubscribe? unsubscribed
    exact hwithdraw _ sub h

theorem uniform_change (h : b.filters.Uniform) (hchange : Protocol.Change strategy b p b') :
    b'.filters.Uniform ∧ b'.filters.granularity = b.filters.granularity := by
  refine filters_change (P := fun t => t.Uniform ∧ t.granularity = b.filters.granularity) hchange
    ⟨h, rfl⟩ ?_ ?_
  · intro t sub ht
    have hf := fun grid => Grid.granularity_erase grid sub.id sub.geofence.box
    exact ⟨FilterTree.uniform_modify ht.1 hf, (FilterTree.granularity_modify hf).trans ht.2⟩
  · intro topic geofence session _ _
    have hf := fun grid => (Grid.granularity_insert (b.without p.sender topic grid)
      (session.subscribe topic geofence).2 geofence.box).trans
        (granularity_without b p.sender topic grid)
    exact ⟨FilterTree.uniform_create h hf, FilterTree.granularity_create hf⟩

/-! ## Nodes and buckets after a packet -/

/-- A packet that grants nothing leaves the nodes and buckets as they are. -/
theorem footprint_of_grant?_none (filter : Topic) (c : Cell)
    (hchange : Protocol.Change strategy b p b')
    (hnone : grant? (b.sessions.get? p.sender) p.payload = none) :
    (b'.HasNode filter ↔ b.HasNode filter) ∧ (b'.HasBucket filter c ↔ b.HasBucket filter c) := by
  refine filters_change (P := fun t => ((t.grid? filter).isSome = true ↔ b.HasNode filter) ∧
    ((∃ grid, t.grid? filter = some grid ∧ grid.hasBucket c = true) ↔ b.HasBucket filter c))
    hchange ⟨Iff.rfl, Iff.rfl⟩ ?_ ?_
  · intro t sub ht
    unfold withdraw
    rw [FilterTree.isSome_grid?_modify, FilterTree.grid?_modify]
    refine ⟨ht.1, ?_⟩
    rw [← ht.2]
    split
    · simp [Grid.hasBucket_erase]
    · rfl
  · intro topic geofence session hpayload hsession
    rw [hpayload, hsession] at hnone
    cases hnone

theorem hasBucket_reach (b : Broker) (filter : Topic) (c : Cell) :
    (b.filters.reach filter).grid.hasBucket c = true ↔ b.HasBucket filter c := by
  unfold HasBucket
  cases hgrid : b.filters.grid? filter with
  | some grid => simp [FilterTree.grid_reach_of_grid? hgrid]
  | none =>
    obtain ⟨k, hk⟩ := FilterTree.grid_reach_of_none hgrid
    simp [hk]

/-- A packet that subscribes a client with a session leaves a node at every beginning of the filter,
and in the grid at its end a bucket in every cell of the geofence. -/
theorem footprint_of_grant? (strategy : Strategy) (filter : Topic) (c : Cell)
    {session : Session} {topic : Topic} {geofence : Geofence}
    (huniform : b.filters.Uniform) (hpayload : p.payload = .subscribe topic geofence)
    (hsession : b.sessions.get? p.sender = some session) :
    ((process strategy b p).broker.HasNode filter ↔
      b.HasNode filter ∨ filter.levels <+: topic.levels) ∧
    ((process strategy b p).broker.HasBucket filter c ↔
      b.HasBucket filter c ∨ topic = filter ∧ c ∈ b.filters.root.grid.cellsFor geofence.box) := by
  have hfilters : (process strategy b p).broker.filters =
      b.filters.create topic fun grid => (b.without p.sender topic grid).insert
        (session.subscribe topic geofence).2 geofence.box := by
    rw [process, hpayload]
    dsimp only
    rw [Protocol.subscribe, subscribe?_of_get? hsession]
  have hcells : ∀ grid : Grid, grid.granularity = b.filters.granularity →
      grid.cellsFor geofence.box = b.filters.root.grid.cellsFor geofence.box :=
    fun grid hgrid => Grid.cellsFor_congr hgrid geofence.box
  refine ⟨?_, ?_⟩
  · rw [HasNode, hfilters, FilterTree.isSome_grid?_create, or_comm]
    rfl
  · rw [← hasBucket_reach b filter c, HasBucket, hfilters, FilterTree.grid?_create]
    split
    next hprefix =>
      by_cases htopic : filter = topic
      · subst htopic
        have hold := (granularity_without b p.sender filter _).trans
          (huniform.granularity_reach filter)
        simp [Grid.hasBucket_insert, hasBucket_without, hcells _ hold]
      · simp [htopic, Ne.symm htopic]
    next hprefix =>
      have htopic : topic ≠ filter := by
        rintro rfl
        exact hprefix (List.prefix_refl _)
      rw [hasBucket_reach]
      simp [htopic, HasBucket]

theorem of_grant? {s : Option Session} {payload : Payload} {g : Topic × Geofence}
    (h : grant? s payload = some g) :
    payload = .subscribe g.1 g.2 ∧ ∃ session, s = some session := by
  unfold grant? at h
  split at h
  · obtain ⟨session, hsession, rfl⟩ := Option.map_eq_some_iff.1 h
    exact ⟨rfl, session, hsession⟩
  · cases h

/-- After a packet the nodes are those before and the beginnings of the filter that it subscribes
its sender to. -/
theorem hasNode_process (huniform : b.filters.Uniform) :
    (process strategy b p).broker.HasNode filter ↔ b.HasNode filter ∨
      ∃ g ∈ grant? (b.sessions.get? p.sender) p.payload, filter.levels <+: g.1.levels := by
  cases hg : grant? (b.sessions.get? p.sender) p.payload with
  | none =>
    have hsame := footprint_of_grant?_none filter ⟨0, 0⟩
      (Protocol.change_process strategy b p) hg
    simp [hsame.1]
  | some g =>
    obtain ⟨hpayload, session, hsession⟩ := of_grant? hg
    have hmore := footprint_of_grant? strategy filter ⟨0, 0⟩ huniform hpayload hsession
    simp [hmore.1]

/-- After a packet the buckets at a filter are those before and, if the packet subscribes its sender
to the filter, those of the geofence. -/
theorem hasBucket_process (huniform : b.filters.Uniform) :
    (process strategy b p).broker.HasBucket filter c ↔ b.HasBucket filter c ∨
      ∃ g ∈ grant? (b.sessions.get? p.sender) p.payload,
        g.1 = filter ∧ c ∈ b.filters.root.grid.cellsFor g.2.box := by
  cases hg : grant? (b.sessions.get? p.sender) p.payload with
  | none =>
    have hsame := footprint_of_grant?_none filter c (Protocol.change_process strategy b p) hg
    simp [hsame.2]
  | some g =>
    obtain ⟨hpayload, session, hsession⟩ := of_grant? hg
    have hmore := footprint_of_grant? strategy filter c huniform hpayload hsession
    simp [hmore.2]

end Broker

end Geocast
