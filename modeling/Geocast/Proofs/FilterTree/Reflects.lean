import Geocast.FilterTree.Lemmas
import Geocast.Proofs.Grid.Count

/-!
# Grids that reflect who owns what

A grid is only an index: it must hold an id in exactly the cells of the geofence that goes with the
id at present. Here `owns` is any relation between ids and geofences; a broker takes it from its
sessions.

* `Grid.Reflects`: a grid holds the owned ids in the cells of their geofences, and counts them.
* `Grid.reflects_erase`, `Grid.reflects_insert`: taking out an id that has one geofence, entering an
  id under one.
* `FilterTree.Reflects`: every grid of a tree reflects who owns what at its filter.
* `FilterTree.reflects_erase`, `FilterTree.reflects_create`: the same for a tree whose grid at one
  filter is changed.
-/
namespace Geocast

namespace Grid

/-- A grid holds the owned ids in the cells of their geofences and nothing else, and its counter is
right. -/
structure Reflects (g : Grid) (owns : SubscriptionId → Geofence → Prop) : Prop where
  holds_iff : ∀ c id, g.holds c id = true ↔
    ∃ geofence, owns id geofence ∧ c ∈ g.cellsFor geofence.box
  counted : g.Counted

variable {g : Grid} {owns owns' : SubscriptionId → Geofence → Prop}

theorem Reflects.congr (h : g.Reflects owns)
    (hiff : ∀ id geofence, owns id geofence ↔ owns' id geofence) : g.Reflects owns' := by
  refine ⟨fun c id => ?_, h.counted⟩
  rw [h.holds_iff]
  exact exists_congr fun geofence => and_congr_left' (hiff id geofence)

theorem reflects_empty (n : Nat) (h : ∀ id geofence, ¬ owns id geofence) :
    (Grid.empty n).Reflects owns := by
  refine ⟨fun c id => ?_, counted_empty n⟩
  rw [holds_empty]
  refine iff_of_false Bool.false_ne_true ?_
  rintro ⟨geofence, howns, -⟩
  exact h id geofence howns

theorem reflects_erase (h : g.Reflects owns) {id : SubscriptionId} {geofence : Geofence}
    (hone : ∀ other, owns id other → other = geofence) :
    (g.erase id geofence.box).Reflects fun x other => owns x other ∧ id ≠ x := by
  refine ⟨fun c x => ?_, counted_erase id geofence.box h.counted⟩
  simp only [cellsFor_congr (granularity_erase g id geofence.box)]
  rw [holds_erase, Bool.and_eq_true, h.holds_iff, Bool.not_eq_true', Bool.and_eq_false_iff,
    beq_eq_false_iff_ne]
  constructor
  · rintro ⟨⟨other, howns, hc⟩, hnot⟩
    refine ⟨other, ⟨howns, ?_⟩, hc⟩
    rintro rfl
    obtain rfl := hone other howns
    have hc' : (g.cellsFor other.box).contains c = true := List.contains_iff_mem.2 hc
    rcases hnot with hnot | hnot
    · rw [hc'] at hnot
      cases hnot
    · exact hnot rfl
  · rintro ⟨other, ⟨howns, hne⟩, hc⟩
    exact ⟨⟨other, howns, hc⟩, .inr hne⟩

theorem reflects_insert (h : g.Reflects owns) (id : SubscriptionId) (geofence : Geofence) :
    (g.insert id geofence.box).Reflects fun x other =>
      owns x other ∨ id = x ∧ other = geofence := by
  refine ⟨fun c x => ?_, counted_insert id geofence.box h.counted⟩
  simp only [cellsFor_congr (granularity_insert g id geofence.box)]
  rw [holds_insert, Bool.or_eq_true, h.holds_iff, Bool.and_eq_true, List.contains_iff_mem,
    beq_iff_eq]
  constructor
  · rintro (⟨other, howns, hc⟩ | ⟨hc, rfl⟩)
    · exact ⟨other, .inl howns, hc⟩
    · exact ⟨geofence, .inr ⟨rfl, rfl⟩, hc⟩
  · rintro ⟨other, howns | ⟨rfl, rfl⟩, hc⟩
    · exact .inl ⟨other, howns, hc⟩
    · exact .inr ⟨hc, rfl⟩

end Grid

namespace FilterTree

/-- Every grid reflects who owns what at its filter. -/
def Reflects (t : FilterTree) (owns : Topic → SubscriptionId → Geofence → Prop) : Prop :=
  ∀ filter grid, t.grid? filter = some grid → grid.Reflects (owns filter)

variable {t : FilterTree} {owns owns' : Topic → SubscriptionId → Geofence → Prop}

theorem Reflects.congr (h : t.Reflects owns)
    (hiff : ∀ filter id geofence, owns filter id geofence ↔ owns' filter id geofence) :
    t.Reflects owns' :=
  fun filter grid hgrid => (h filter grid hgrid).congr (hiff filter)

theorem reflects_empty (n : Nat) (h : ∀ filter id geofence, ¬ owns filter id geofence) :
    (empty n).Reflects owns := by
  intro filter grid hgrid
  rw [grid?_empty] at hgrid
  split at hgrid
  · cases hgrid
    exact Grid.reflects_empty n (h filter)
  · cases hgrid

/-- Taking an id out of the grid at one filter, from under the box of its one geofence there. -/
theorem reflects_erase (h : t.Reflects owns) {filter : Topic} {id : SubscriptionId}
    {geofence : Geofence} (hone : ∀ other, owns filter id other → other = geofence) :
    (t.modify filter fun grid => grid.erase id geofence.box).Reflects
      fun topic x other => owns topic x other ∧ ¬ (filter = topic ∧ id = x) := by
  intro topic grid hgrid
  rw [grid?_modify] at hgrid
  split at hgrid
  next htopic =>
    subst htopic
    obtain ⟨old, hold, rfl⟩ := Option.map_eq_some_iff.1 hgrid
    refine (Grid.reflects_erase (h _ _ hold) hone).congr fun x other => ?_
    simp
  next htopic =>
    refine (h _ _ hgrid).congr fun x other => ?_
    simp [htopic]

/-- Making the nodes along a filter and changing the grid at its end. Grids that are made reflect
that nothing was owned where no grid was. -/
theorem reflects_create (h : t.Reflects owns)
    (hplanted : ∀ {filter id geofence}, owns filter id geofence → (t.grid? filter).isSome = true)
    {filter : Topic} {f : Grid → Grid}
    (hend : ∀ {grid : Grid}, grid.Reflects (owns filter) → (f grid).Reflects (owns' filter))
    (helse : ∀ topic, topic ≠ filter → ∀ id geofence,
      owns topic id geofence ↔ owns' topic id geofence) :
    (t.create filter f).Reflects owns' := by
  have hreach : ∀ topic, (t.reach topic).grid.Reflects (owns topic) := by
    intro topic
    cases hgrid : t.grid? topic with
    | some grid =>
      rw [grid_reach_of_grid? hgrid]
      exact h _ _ hgrid
    | none =>
      obtain ⟨k, hk⟩ := grid_reach_of_none hgrid
      rw [hk]
      refine Grid.reflects_empty k fun id geofence howns => ?_
      have hsome := hplanted howns
      rw [hgrid] at hsome
      cases hsome
  intro topic grid hgrid
  rw [grid?_create] at hgrid
  by_cases htopic : topic = filter
  · subst htopic
    simp only [List.prefix_refl, if_true, Option.some.injEq] at hgrid
    subst hgrid
    exact hend (hreach topic)
  · simp only [htopic, if_false] at hgrid
    split at hgrid
    · obtain rfl := Option.some.inj hgrid
      exact (hreach topic).congr (helse topic htopic)
    · exact (h _ _ hgrid).congr (helse topic htopic)

/-! ## Nodes stay -/

theorem isSome_grid?_modify (t : FilterTree) (filter topic : Topic) (f : Grid → Grid) :
    ((t.modify filter f).grid? topic).isSome = (t.grid? topic).isSome := by
  rw [grid?_modify]
  split
  · exact Option.isSome_map
  · rfl

theorem isSome_grid?_create (t : FilterTree) (filter topic : Topic) (f : Grid → Grid) :
    ((t.create filter f).grid? topic).isSome = true ↔
      topic.levels <+: filter.levels ∨ (t.grid? topic).isSome = true := by
  rw [grid?_create]
  split
  next h => simp [h]
  next h => simp [h]

end FilterTree

end Geocast
