import Geocast.FilterTree.Lemmas

/-!
# One granularity for a whole tree

A node is made as fine as the one above it, and what is entered in a grid or taken out of it leaves
the granularity alone. So the granularity of the root goes down to all nodes.

* `FilterTree.Uniform`: all grids of a tree have its granularity, which is not zero.
* `Uniform.grid_reach`: the grid that is made for a filter has it as well.
* `uniform_modify`, `uniform_create`: the operations on trees keep that, and the granularity.
-/
namespace Geocast

theorem Grid.granularity_empty (n : Nat) : (Grid.empty n).granularity = max 1 n := rfl

theorem Node.granularity_reach {n : Node} {k : Nat} (hpos : 0 < k)
    (hsame : ∀ ls grid, n.grid? ls = some grid → grid.granularity = k) (ls : List Level) :
    (n.reach ls).grid.granularity = k := by
  induction ls generalizing n with
  | nil => exact hsame [] n.grid rfl
  | cons l ls ih =>
    refine ih fun ms grid hgrid => ?_
    cases hchild : n.child? l with
    | some c =>
      rw [childOrNew_of_child? hchild] at hgrid
      refine hsame (l :: ms) grid ?_
      rw [grid?_cons, hchild]
      exact hgrid
    | none =>
      rw [childOrNew_of_none hchild, grid?_sprout] at hgrid
      split at hgrid
      · cases hgrid
        have hroot : n.grid.granularity = k := hsame [] n.grid rfl
        rw [Grid.granularity_empty, hroot]
        omega
      · cases hgrid

namespace FilterTree

/-- All grids have the granularity of the tree, which is not zero. -/
structure Uniform (t : FilterTree) : Prop where
  pos : 0 < t.granularity
  same : ∀ filter grid, t.grid? filter = some grid → grid.granularity = t.granularity

theorem uniform_empty (n : Nat) : (empty n).Uniform := by
  refine ⟨?_, ?_⟩
  · change 0 < max 1 n
    omega
  · intro filter grid hgrid
    rw [grid?_empty] at hgrid
    split at hgrid
    · cases hgrid
      rfl
    · cases hgrid

variable {t : FilterTree} {filter : Topic} {f : Grid → Grid}

theorem granularity_modify (hf : ∀ grid, (f grid).granularity = grid.granularity) :
    (t.modify filter f).granularity = t.granularity := by
  have hroot := Node.grid?_modify f filter.levels [] t.root
  simp only [Node.grid?_nil, Option.map_some, ← apply_ite some, Option.some.injEq] at hroot
  change (t.root.modify f filter.levels).grid.granularity = t.root.grid.granularity
  rw [hroot]
  split
  · exact hf t.root.grid
  · rfl

theorem granularity_create (hf : ∀ grid, (f grid).granularity = grid.granularity) :
    (t.create filter f).granularity = t.granularity := by
  rw [granularity, create]
  cases filter.levels with
  | nil => exact hf t.root.grid
  | cons l ls => rfl

theorem uniform_modify (h : t.Uniform) (hf : ∀ grid, (f grid).granularity = grid.granularity) :
    (t.modify filter f).Uniform := by
  refine ⟨?_, ?_⟩
  · rw [granularity_modify hf]
    exact h.pos
  · intro other grid hgrid
    rw [granularity_modify hf]
    rw [grid?_modify] at hgrid
    split at hgrid
    · obtain ⟨old, hold, rfl⟩ := Option.map_eq_some_iff.1 hgrid
      rw [hf]
      exact h.same other old hold
    · exact h.same other grid hgrid

theorem Uniform.granularity_reach (h : t.Uniform) (filter : Topic) :
    (t.reach filter).grid.granularity = t.granularity :=
  Node.granularity_reach h.pos (fun ls => h.same ⟨ls⟩) filter.levels

theorem Uniform.grid_reach (h : t.Uniform) (filter : Topic) :
    (t.reach filter).grid = (t.grid? filter).getD (Grid.empty t.granularity) := by
  cases hgrid : t.grid? filter with
  | some grid => exact grid_reach_of_grid? hgrid
  | none =>
    obtain ⟨k, hk⟩ := grid_reach_of_none hgrid
    have hsame := h.granularity_reach filter
    rw [hk, Grid.granularity_empty] at hsame
    have hmax : max 1 t.granularity = max 1 k := by omega
    rw [hk, Option.getD_none, Grid.empty, Grid.empty, hmax]

theorem uniform_create (h : t.Uniform) (hf : ∀ grid, (f grid).granularity = grid.granularity) :
    (t.create filter f).Uniform := by
  refine ⟨?_, ?_⟩
  · rw [granularity_create hf]
    exact h.pos
  · intro other grid hgrid
    rw [granularity_create hf]
    rw [grid?_create] at hgrid
    split at hgrid
    · obtain rfl := Option.some.inj hgrid
      split
      · rw [hf, h.granularity_reach]
      · rw [h.granularity_reach]
    · exact h.same other grid hgrid

end FilterTree

end Geocast
