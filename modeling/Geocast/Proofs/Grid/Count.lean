import Geocast.Grid.Lemmas
import Mathlib.Data.Finset.Card

/-!
# The counter of a grid

`memberships` is a number that is written up and down as ids are entered and taken out. `Counted`
says that it is the number of the entries that the grid holds.

* `counted_insert`, `counted_erase`: entering an id and taking it out keep the counter right,
  whatever the grid holds of the id before.
-/
namespace Geocast.Grid

/-- The counter is the number of cells and ids of which the grid says that the cell holds the id. -/
def Counted (g : Grid) : Prop :=
  ∃ entries : Finset (Cell × SubscriptionId),
    (∀ c id, (c, id) ∈ entries ↔ g.holds c id = true) ∧ g.memberships = entries.card

theorem counted_empty (n : Nat) : (Grid.empty n).Counted := by
  refine ⟨∅, ?_, rfl⟩
  intro c id
  simp

theorem counted_insertAt (id : SubscriptionId) {g : Grid} (c : Cell) (h : g.Counted) :
    (g.insertAt id c).Counted := by
  by_cases hc : g.holds c id = true
  · rwa [insertAt, if_pos hc]
  · obtain ⟨entries, hmem, hcard⟩ := h
    have hnot : (c, id) ∉ entries := fun hin => hc ((hmem c id).1 hin)
    refine ⟨Insert.insert (c, id) entries, ?_, ?_⟩
    · intro d x
      rw [holds_insertAt, Finset.mem_insert, hmem, Bool.or_eq_true, Bool.and_eq_true, beq_iff_eq,
        beq_iff_eq, Prod.mk.injEq, or_comm, eq_comm (a := d), eq_comm (a := x)]
    · rw [Finset.card_insert_of_notMem hnot, insertAt, if_neg hc]
      dsimp only
      omega

theorem counted_eraseAt (id : SubscriptionId) {g : Grid} (c : Cell) (h : g.Counted) :
    (g.eraseAt id c).Counted := by
  by_cases hc : g.holds c id = true
  · obtain ⟨entries, hmem, hcard⟩ := h
    have hin : (c, id) ∈ entries := (hmem c id).2 hc
    have hpos := Finset.card_pos.2 ⟨_, hin⟩
    refine ⟨entries.erase (c, id), ?_, ?_⟩
    · intro d x
      rw [holds_eraseAt, Finset.mem_erase, hmem, Bool.and_eq_true, Bool.not_eq_true',
        Bool.and_eq_false_iff, beq_eq_false_iff_ne, beq_eq_false_iff_ne, Ne, Prod.mk.injEq,
        not_and_or, and_comm, eq_comm (a := d), eq_comm (a := x)]
    · rw [Finset.card_erase_of_mem hin, eraseAt, if_pos hc]
      dsimp only
      omega
  · rwa [eraseAt, if_neg hc]

theorem counted_insert (id : SubscriptionId) (box : BoundingBox) {g : Grid} (h : g.Counted) :
    (g.insert id box).Counted := by
  rw [insert]
  generalize g.cellsFor box = cells
  induction cells generalizing g with
  | nil => exact h
  | cons c cells ih => exact ih (counted_insertAt id c h)

theorem counted_erase (id : SubscriptionId) (box : BoundingBox) {g : Grid} (h : g.Counted) :
    (g.erase id box).Counted := by
  rw [erase]
  generalize g.cellsFor box = cells
  induction cells generalizing g with
  | nil => exact h
  | cons c cells ih => exact ih (counted_eraseAt id c h)

end Geocast.Grid
