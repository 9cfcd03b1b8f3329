import Geocast.Proofs.Broker.Footprint
import Geocast.Proofs.Federation.Home
import Geocast.Proofs.Protocol.Independence

/-!
# The order of different senders

Packets of different senders reach a broker in any order. They all work on one map of sessions and
one filter tree: nodes are made on first use, buckets hold the ids of many clients and stay when the
last one has gone. Still the order of different senders makes no difference to the state in the end,
as long as each sender's own packets stay in order.

Nothing is commuted here packet by packet. Sessions, nodes and buckets after a run are those that
the runs of all senders alone would give, put together; and what the grids hold and count follows
from the sessions.

* `Reordered`: two sequences with the same packets of every sender, in the same order.
* `grants`, `grantsAlone`: what a run subscribes clients to, and what a client's run alone would.
* `mem_grants_iff`: what a run grants is what the runs of the senders alone grant.
* `hasNode_processAll`, `hasBucket_processAll`: the nodes and buckets after a run.
* `Broker.Agrees`: two brokers have the same clients, nodes, entries, counters and buckets.
* `agrees_of_reordered`: so it is after two reordered sequences.
-/
namespace Geocast

/-- The packets of every sender are the same in both sequences, and in the same order. -/
def Reordered (ps qs : List Packet) : Prop :=
  ∀ id, ps.filter (fun p => p.sender = id) = qs.filter (fun q => q.sender = id)

namespace Protocol

open Broker (grant?)

variable {strategy : Strategy} {b : Broker} {filter : Topic} {c : Cell} {g : Topic × Geofence}

/-! ## What a run grants -/

/-- What the packets of a run subscribe their senders to. -/
def grants (strategy : Strategy) : Broker → List Packet → List (Topic × Geofence)
  | _, [] => []
  | b, p :: ps =>
    (grant? (b.sessions.get? p.sender) p.payload).toList ++
      grants strategy (process strategy b p).broker ps

/-- What the packets of a client subscribe it to when it is alone with a broker. -/
def grantsAlone (strategy : Strategy) (f : Federation) (id : ClientId) :
    Option Session → List Packet → List (Topic × Geofence)
  | _, [] => []
  | s, p :: ps =>
    (grant? s p.payload).toList ++
      grantsAlone strategy f id (next strategy f id s p.payload) ps

/-- The packets of a client alone grant it what they grant it among those of others, so what a run
grants is what the runs of all clients alone grant. -/
theorem mem_grants_iff (h : b.Consistent) (ps : List Packet) :
    g ∈ grants strategy b ps ↔
      ∃ id, g ∈ grantsAlone strategy b.federation id (b.sessions.get? id)
        (ps.filter fun p => p.sender = id) := by
  induction ps generalizing b with
  | nil => simp [grants, grantsAlone]
  | cons p ps ih =>
    have hchange := change_process strategy b p
    have hrest := ih (Broker.consistent_change h hchange)
    rw [federation_change hchange] at hrest
    have hclient : ∀ id, g ∈ grantsAlone strategy b.federation id (b.sessions.get? id)
          ((p :: ps).filter fun q => q.sender = id) ↔
        (p.sender = id ∧ g ∈ grant? (b.sessions.get? p.sender) p.payload) ∨
          g ∈ grantsAlone strategy b.federation id
            ((process strategy b p).broker.sessions.get? id)
            (ps.filter fun q => q.sender = id) := by
      intro id
      by_cases hid : p.sender = id
      · subst hid
        have hown : (p :: ps).filter (fun q => q.sender = p.sender) =
            p :: ps.filter fun q => q.sender = p.sender :=
          List.filter_cons_of_pos (decide_eq_true rfl)
        rw [hown, grantsAlone, get?_process_self strategy h p]
        simp
      · have hskip : (p :: ps).filter (fun q => q.sender = id) =
            ps.filter fun q => q.sender = id :=
          List.filter_cons_of_neg fun heq => hid (of_decide_eq_true heq)
        rw [hskip, get?_process_of_ne strategy h (Ne.symm hid)]
        simp [hid]
    rw [grants, List.mem_append, hrest]
    simp [hclient, exists_or]

/-! ## What a run leaves -/

/-- The nodes after a run are those before and the beginnings of all filters that it grants. -/
theorem hasNode_processAll (h : b.filters.Uniform) (ps : List Packet) :
    (processAll strategy b ps).HasNode filter ↔
      b.HasNode filter ∨ ∃ g ∈ grants strategy b ps, filter.levels <+: g.1.levels := by
  induction ps generalizing b with
  | nil => simp [processAll, grants]
  | cons p ps ih =>
    have huniform := (Broker.uniform_change h (change_process strategy b p)).1
    change (processAll strategy (process strategy b p).broker ps).HasNode filter ↔ _
    rw [ih huniform, Broker.hasNode_process h, grants, or_assoc]
    simp only [List.mem_append, Option.mem_toList, Option.mem_def, or_and_right, exists_or]

theorem hasBucket_processAll (h : b.filters.Uniform) (ps : List Packet) :
    (processAll strategy b ps).HasBucket filter c ↔
      b.HasBucket filter c ∨ ∃ g ∈ grants strategy b ps,
        g.1 = filter ∧ c ∈ b.filters.root.grid.cellsFor g.2.box := by
  induction ps generalizing b with
  | nil => simp [processAll, grants]
  | cons p ps ih =>
    have huniform := Broker.uniform_change h (change_process strategy b p)
    have hcells := fun box => Grid.cellsFor_congr huniform.2 box
    change (processAll strategy (process strategy b p).broker ps).HasBucket filter c ↔ _
    rw [ih huniform.1, Broker.hasBucket_process h, grants, or_assoc]
    simp only [List.mem_append, Option.mem_toList, Option.mem_def, or_and_right, exists_or, hcells]

end Protocol

/-! ## Brokers that agree -/

/-- Two grids hold the same ids in the same cells, count them alike and have as many buckets. -/
structure Grid.Agrees (g g' : Grid) : Prop where
  granularity : g.granularity = g'.granularity
  holds : ∀ c id, g.holds c id = g'.holds c id
  memberships : g.memberships = g'.memberships
  bucketCount : g.bucketCount = g'.bucketCount

namespace Broker

/-- Two brokers have the same area, the same clients with the same sessions, nodes for the same
filters, and grids that agree at every node. -/
structure Agrees (b b' : Broker) : Prop where
  federation : b.federation = b'.federation
  sessions : ∀ client, b.sessions.get? client = b'.sessions.get? client
  nodes : ∀ filter, (b.filters.get? filter).isSome = (b'.filters.get? filter).isSome
  grids : ∀ filter n n', b.filters.get? filter = some n → b'.filters.get? filter = some n' →
    n.grid.Agrees n'.grid

variable {b b' : Broker}

/-- What is to be entered at a node is told by the sessions and the granularity. -/
theorem enters_congr (hsessions : ∀ client, b.sessions.get? client = b'.sessions.get? client)
    {n n' : Node} (hfilter : n.filter = n'.filter)
    (hgranularity : n.grid.granularity = n'.grid.granularity) (c : Cell) (id : SubscriptionId) :
    b.Enters n c id ↔ b'.Enters n' c id := by
  simp only [Enters, hsessions, hfilter, Grid.cellsFor_congr hgranularity]

/-- Brokers with the same sessions, nodes and buckets agree: their grids hold what the sessions say
and count what they hold. -/
theorem agrees_of_same (h : b.Consistent) (h' : b'.Consistent) (huniform : b.filters.Uniform)
    (huniform' : b'.filters.Uniform)
    (hgranularity : b.filters.granularity = b'.filters.granularity)
    (hfederation : b.federation = b'.federation)
    (hsessions : ∀ client, b.sessions.get? client = b'.sessions.get? client)
    (hnodes : ∀ filter, b.HasNode filter ↔ b'.HasNode filter)
    (hbuckets : ∀ filter c, b.HasBucket filter c ↔ b'.HasBucket filter c) : b.Agrees b' := by
  refine ⟨hfederation, hsessions, ?_, ?_⟩
  · intro filter
    have hiff := hnodes filter
    simp only [HasNode, ← FilterTree.isSome_get?] at hiff
    exact Bool.eq_iff_iff.2 hiff
  · intro filter n n' hn hn'
    have hgrid := FilterTree.grid?_of_get? hn
    have hgrid' := FilterTree.grid?_of_get? hn'
    have hsame : n.grid.granularity = n'.grid.granularity := by
      rw [huniform.same _ _ hgrid, huniform'.same _ _ hgrid', hgranularity]
    have hfilter : n.filter = n'.filter :=
      (h.placed.filter_of_get? hn).trans (h'.placed.filter_of_get? hn').symm
    have henters := enters_congr hsessions hfilter hsame
    refine ⟨hsame, ?_, ?_, ?_⟩
    · intro c id
      rw [Bool.eq_iff_iff, h.holds_iff hn, h'.holds_iff hn', henters]
    · obtain ⟨entries, hmem, hcard⟩ := h.counted hn
      obtain ⟨entries', hmem', hcard'⟩ := h'.counted hn'
      have heq : entries = entries' := by
        ext ⟨c, id⟩
        rw [hmem, hmem', henters]
      rw [hcard, hcard', heq]
    · apply Grid.bucketCount_congr
      intro c
      have hiff := hbuckets filter c
      simp only [HasBucket, hgrid, hgrid', Option.some.injEq, exists_eq_left'] at hiff
      exact Bool.eq_iff_iff.2 hiff

end Broker

namespace Protocol

variable {b : Broker}

theorem uniform_processAll (strategy : Strategy) (h : b.filters.Uniform) (ps : List Packet) :
    (processAll strategy b ps).filters.Uniform ∧
      (processAll strategy b ps).filters.granularity = b.filters.granularity := by
  refine processAll_induction (fun _ => True)
    (fun b' => b'.filters.Uniform ∧ b'.filters.granularity = b.filters.granularity)
    (fun _ hb hchange => ?_) ⟨h, rfl⟩ fun _ _ => trivial
  have hnext := Broker.uniform_change hb.1 hchange
  exact ⟨hnext.1, hnext.2.trans hb.2⟩

/-- Reordered runs from a broker whose grids say what its sessions say lead to brokers that
agree. -/
theorem agrees_processAll (strategy : Strategy) (h : b.Consistent) (huniform : b.filters.Uniform)
    {ps qs : List Packet} (hsame : Reordered ps qs) :
    (processAll strategy b ps).Agrees (processAll strategy b qs) := by
  have hconsistent : ∀ ps, (processAll strategy b ps).Consistent := fun ps =>
    processAll_induction (fun _ => True) Broker.Consistent
      (fun _ hb hchange => Broker.consistent_change hb hchange) h fun _ _ => trivial
  have hps := uniform_processAll strategy huniform ps
  have hqs := uniform_processAll strategy huniform qs
  have hgrants : ∀ g, g ∈ grants strategy b ps ↔ g ∈ grants strategy b qs := by
    intro g
    rw [mem_grants_iff h, mem_grants_iff h]
    exact exists_congr fun id => by rw [hsame id]
  refine Broker.agrees_of_same (hconsistent ps) (hconsistent qs) hps.1 hqs.1
    (hps.2.trans hqs.2.symm) ?_ ?_ ?_ ?_
  · rw [federation_processAll, federation_processAll]
  · intro client
    have halone := run_eq_alone strategy h client ps
    rw [hsame client, ← run_eq_alone strategy h client qs] at halone
    exact congrArg Prod.fst halone
  · intro filter
    simp only [hasNode_processAll huniform, hgrants]
  · intro filter c
    simp only [hasBucket_processAll huniform, hgrants]

/-- After any packets, under both strategies and for every area: two sequences in which every sender
sends the same packets in the same order, however those of different senders are mixed, lead to the
same sessions, the same nodes, and grids that hold the same ids in the same cells, with the same
counters and as many buckets. -/
theorem agrees_of_reordered (strategy : Strategy) (granularity : Nat) (federation : Federation)
    (before ps qs : List Packet) (hsame : Reordered ps qs) :
    let b := processAll strategy (.start granularity federation) before
    (processAll strategy b ps).Agrees (processAll strategy b qs) := by
  intro b
  have huniform := uniform_processAll (b := .start granularity federation) strategy
    (FilterTree.uniform_empty granularity) before
  exact agrees_processAll strategy
    (Broker.consistent_processAll strategy granularity federation before) huniform.1 hsame

/-- Two visitors may connect and subscribe in turns or one after the other. -/
theorem agrees_visitors_in_turns :
    let x := Packet.visit "x" ⟨0.1, 0.1⟩
    let y := Packet.visit "y" ⟨0.2, 0.2⟩
    let turns := [x[0], y[0], y[1], x[1]]
    let b := processAll .standalone (.start 1 (.world ⟨"b", "h", 1⟩)) []
    turns ≠ x ++ y ∧ Reordered turns (x ++ y) ∧
      (processAll .standalone b turns).Agrees (processAll .standalone b (x ++ y)) := by
  intro x y turns b
  have hsame : Reordered turns (x ++ y) := by
    intro id
    by_cases hx : "x" = id
    · subst hx
      rfl
    · by_cases hy : "y" = id
      · subst hy
        rfl
      · simp [turns, x, y, Packet.visit, hx, hy]
  refine ⟨?_, hsame, agrees_of_reordered _ _ _ _ _ _ hsame⟩
  intro heq
  have hsecond := congrArg (fun ps => ps[1]?.map (·.sender)) heq
  simp [turns, x, y, Packet.visit] at hsecond

end Protocol

end Geocast
