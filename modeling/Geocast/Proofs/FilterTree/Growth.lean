import Geocast.Proofs.FilterTree.Nodes
import Geocast.Proofs.FilterTree.Uniform
import Mathlib.Data.Finset.Card
import Mathlib.Data.List.Infix

/-!
# Trees grow by beginnings

Going along a filter makes the nodes that are missing on the way and no others, so a tree that was
grown along some filters has a node for every beginning of one of them, whatever their order and
however often they came.

* `plant`, `grow`: the tree with the nodes along a filter, along some filters one after the other.
* `beginnings`: the beginnings of some filters, but the empty one.
* `plant_of_isSome`: going along a filter that has its node makes nothing.
* `Placed.grow`, `Uniform.grow`: nodes know their place, and are as fine as the root, whatever was
  made and in whatever order.
* `Uniform.grid?_grow`: the grids that were there stay; a beginning that had none gets an empty one.
* `nodes_grow`: the nodes, their number, look-up and list of a tree that was grown from nothing.
-/
namespace Geocast

theorem Node.create_id {n : Node} {ls : List Level} (h : (n.grid? ls).isSome = true) :
    n.create id ls = n := by
  induction ls generalizing n with
  | nil => rfl
  | cons l ls ih =>
    rw [grid?_cons] at h
    cases hchild : n.child? l with
    | none =>
      rw [hchild] at h
      cases h
    | some c =>
      rw [hchild] at h
      rw [create, childOrNew_of_child? hchild, ih h, Branches.put_of_find? hchild]

namespace FilterTree

/-- The tree with the nodes along a filter, their grids left as they are. -/
def plant (t : FilterTree) (filter : Topic) : FilterTree := t.create filter id

/-- The tree with the nodes along some filters, made one filter after the other. -/
def grow (t : FilterTree) (filters : List Topic) : FilterTree := filters.foldl plant t

/-- The beginnings of some filters, but the empty one. -/
def beginnings (filters : List Topic) : Finset Topic :=
  ((filters.flatMap fun f => f.levels.inits).toFinset.erase []).image Topic.mk

theorem mem_beginnings {filters : List Topic} {f : Topic} :
    f ∈ beginnings filters ↔ f.levels ≠ [] ∧ ∃ g ∈ filters, f.levels <+: g.levels := by
  cases f with | mk ls =>
  simp [beginnings]

variable {t : FilterTree}

/-! ## Going along one filter -/

@[simp] theorem granularity_plant (t : FilterTree) (filter : Topic) :
    (t.plant filter).granularity = t.granularity := granularity_create fun _ => rfl

theorem grid?_plant (t : FilterTree) (filter other : Topic) :
    (t.plant filter).grid? other =
      if other.levels <+: filter.levels then some (t.reach other).grid else t.grid? other := by
  rw [plant, grid?_create]
  simp only [id_eq, ite_self]

theorem plant_of_isSome {filter : Topic} (h : (t.grid? filter).isSome = true) :
    t.plant filter = t := by
  rw [plant, create, Node.create_id h]

theorem grid?_plant_of_isSome {f : Topic} (h : (t.grid? f).isSome = true) (filter : Topic) :
    (t.plant filter).grid? f = t.grid? f := by
  obtain ⟨grid, hgrid⟩ := Option.isSome_iff_exists.1 h
  rw [grid?_plant, grid_reach_of_grid? hgrid, hgrid, ite_self]

/-! ## Growing -/

/-- What going along one filter keeps, going along some filters keeps. -/
theorem grow_induction {P : FilterTree → Prop} (h : P t) (hplant : ∀ t f, P t → P (plant t f))
    (filters : List Topic) : P (t.grow filters) := by
  induction filters generalizing t with
  | nil => exact h
  | cons f filters ih => exact ih (hplant t f h)

@[simp] theorem granularity_grow (t : FilterTree) (filters : List Topic) :
    (t.grow filters).granularity = t.granularity :=
  grow_induction (P := fun t' => t'.granularity = t.granularity) rfl
    (fun t' f h => (granularity_plant t' f).trans h) filters

theorem Distinct.grow (h : t.Distinct) (filters : List Topic) : (t.grow filters).Distinct :=
  grow_induction h (fun _ f h => h.create f id) filters

theorem Placed.grow (h : t.Placed) (filters : List Topic) : (t.grow filters).Placed :=
  grow_induction h (fun _ f h => h.create f id) filters

theorem Uniform.grow (h : t.Uniform) (filters : List Topic) : (t.grow filters).Uniform :=
  grow_induction h (fun _ _ h => uniform_create h fun _ => rfl) filters

theorem grid?_grow_of_isSome {f : Topic} (h : (t.grid? f).isSome = true) (filters : List Topic) :
    (t.grow filters).grid? f = t.grid? f := by
  refine grow_induction (P := fun t' => t'.grid? f = t.grid? f) rfl (fun t' g ht' => ?_) filters
  rw [grid?_plant_of_isSome (by rw [ht', h]), ht']

/-- The grids that were there stay, and a beginning that had none gets an empty one. -/
theorem Uniform.grid?_grow (h : t.Uniform) (filters : List Topic) (f : Topic) :
    (t.grow filters).grid? f =
      if ∃ g ∈ filters, f.levels <+: g.levels then
        some ((t.grid? f).getD (Grid.empty t.granularity))
      else t.grid? f := by
  induction filters generalizing t with
  | nil => simp [FilterTree.grow]
  | cons g filters ih =>
    have hplant : (t.plant g).Uniform := uniform_create h fun _ => rfl
    have hstep : (t.grow (g :: filters)).grid? f = ((t.plant g).grow filters).grid? f := rfl
    rw [hstep, ih hplant, grid?_plant, granularity_plant, h.grid_reach]
    by_cases hg : f.levels <+: g.levels <;> simp [hg]

/-- The grids of a tree that was grown from nothing: those of the beginnings, all empty. -/
theorem grid?_grow_empty (n : Nat) (filters : List Topic) (f : Topic) :
    ((empty n).grow filters).grid? f =
      if f.levels = [] ∨ f ∈ beginnings filters then some (Grid.empty n) else none := by
  have hempty : Grid.empty (empty n).granularity = Grid.empty n := by
    simp [granularity, empty, Grid.empty]
  rw [(uniform_empty n).grid?_grow, grid?_empty, hempty]
  by_cases hf : f.levels = [] <;> simp [mem_beginnings, hf]

/-- The filters of the nodes are the beginnings, each once. -/
theorem toFinset_filters_grow (n : Nat) (filters : List Topic) :
    (((empty n).grow filters).nodes.map Node.filter).toFinset = beginnings filters := by
  have hdistinct := (distinct_empty n).grow filters
  have hplaced := (placed_empty n).grow filters
  ext f
  rw [List.mem_toFinset, List.mem_map]
  constructor
  · intro hf
    obtain ⟨m, hm, rfl⟩ := hf
    obtain ⟨hne, hget⟩ := (mem_nodes_iff hdistinct hplaced).1 hm
    have hgrid := grid?_of_get? hget
    rw [grid?_grow_empty] at hgrid
    split at hgrid
    next hor => exact hor.resolve_left hne
    next => cases hgrid
  · intro hf
    have hsome : (((empty n).grow filters).get? f).isSome = true := by
      rw [isSome_get?, grid?_grow_empty, if_pos (.inr hf)]
      rfl
    obtain ⟨m, hm⟩ := Option.isSome_iff_exists.1 hsome
    have hfilter := hplaced.filter_of_get? hm
    refine ⟨m, (mem_nodes_iff hdistinct hplaced).2 ⟨?_, ?_⟩, hfilter⟩
    · rw [hfilter]
      exact (mem_beginnings.1 hf).1
    · rw [hfilter]
      exact hm

/-- There are as many lines as there are beginnings that are not too long. -/
theorem length_lines_grow (n : Nat) (filters : List Topic) (top : Nat) :
    (((empty n).grow filters).lines top).length =
      ((beginnings filters).filter fun f => f.levels.length ≤ top).card := by
  have hplaced := (placed_empty n).grow filters
  have hnodup := (nodup_nodes ((distinct_empty n).grow filters) hplaced).filter
    fun f => decide (f.levels.length ≤ top)
  have hcard := List.toFinset_card_of_nodup hnodup
  rw [List.toFinset_filter, toFinset_filters_grow] at hcard
  simp only [decide_eq_true_eq] at hcard
  rw [lines_eq hplaced, hcard, List.filter_map, List.length_map, List.length_map]
  rfl

/-- The node that a call returns is the one that every later call returns: nothing is made for it
again, and it has the grid that was changed through the first. -/
theorem plant_stays (h : t.Placed) (f : Topic) :
    ∃ m, (t.plant f).get? f = some m ∧ m.filter = f ∧ ∀ change more,
      let later := ((t.plant f).modify f change).grow more
      later.plant f = later ∧ ∃ m', later.get? f = some m' ∧ m'.filter = f ∧
        m'.grid = change m.grid := by
  have hplanted : ((t.plant f).grid? f).isSome = true := by
    rw [grid?_plant, if_pos (List.prefix_refl _)]
    rfl
  obtain ⟨m, hm⟩ := Option.isSome_iff_exists.1 ((isSome_get? _ f).trans hplanted)
  have hplaced : (t.plant f).Placed := h.create f id
  refine ⟨m, hm, hplaced.filter_of_get? hm, ?_⟩
  intro change more later
  have hplacedLater : later.Placed := (hplaced.modify f change).grow more
  have hchanged : ((t.plant f).modify f change).grid? f = some (change m.grid) := by
    rw [grid?_modify, if_pos rfl, grid?_of_get? hm]
    rfl
  have hlater : later.grid? f = some (change m.grid) := by
    rw [grid?_grow_of_isSome (by rw [hchanged]; rfl), hchanged]
  refine ⟨plant_of_isSome (by rw [hlater]; rfl), ?_⟩
  obtain ⟨m', hm', hgrid⟩ := Option.map_eq_some_iff.1 hlater
  exact ⟨m', hm', hplacedLater.filter_of_get? hm', hgrid⟩

/-- A tree that was grown from nothing has one node for every beginning: the nodes are as many, each
is found at the end of its filter and nowhere else, and is listed by one line if it is not too deep.
The node that a call returns is returned by every later call, and the order of the calls does not
matter. -/
theorem nodes_grow (n : Nat) (filters : List Topic) :
    let t := (empty n).grow filters
    ((t.nodes.map Node.filter).Nodup ∧
      (∀ f, f ∈ t.nodes.map Node.filter ↔ f ∈ beginnings filters) ∧
      t.size = (beginnings filters).card) ∧
    ((∀ f, f ∈ beginnings filters ↔ f.levels ≠ [] ∧ (t.get? f).isSome = true) ∧
      ∀ f m, t.get? f = some m → m.filter = f ∧ m.level = f.levels.getLast?.getD .blank ∧
        m.grid.granularity = t.granularity ∧ t.plant f = t) ∧
    (∀ f, ∃ m, (t.plant f).get? f = some m ∧ m.filter = f ∧ ∀ change more,
      let later := ((t.plant f).modify f change).grow more
      later.plant f = later ∧ ∃ m', later.get? f = some m' ∧ m'.filter = f ∧
        m'.grid = change m.grid) ∧
    (∀ top, t.lines top =
        (t.nodes.filter fun m => m.filter.levels.length ≤ top).map Node.line ∧
      (t.lines top).length = ((beginnings filters).filter fun f => f.levels.length ≤ top).card) ∧
    ∀ others, (∀ f, f ∈ others ↔ f ∈ filters) →
      (((empty n).grow others).nodes.map Node.filter).Perm (t.nodes.map Node.filter) ∧
      ∀ f, ((empty n).grow others).grid? f = t.grid? f := by
  intro t
  have hplaced : t.Placed := (placed_empty n).grow filters
  have hnodup : (t.nodes.map Node.filter).Nodup :=
    nodup_nodes ((distinct_empty n).grow filters) hplaced
  have hset := toFinset_filters_grow n filters
  have hcard := List.toFinset_card_of_nodup hnodup
  refine ⟨⟨hnodup, ?_, ?_⟩, ⟨?_, ?_⟩, plant_stays hplaced, ?_, ?_⟩
  · intro f
    rw [← hset, List.mem_toFinset]
  · rw [size_eq, ← hset, hcard, List.length_map]
  · intro f
    rw [isSome_get?, grid?_grow_empty]
    by_cases hf : f.levels = [] <;> simp [hf, mem_beginnings]
  · intro f m hm
    have hgrid := grid?_of_get? hm
    exact ⟨hplaced.filter_of_get? hm, hplaced.level_of_get? hm,
      ((uniform_empty n).grow filters).same f m.grid hgrid, plant_of_isSome (by rw [hgrid]; rfl)⟩
  · intro top
    exact ⟨lines_eq hplaced top, length_lines_grow n filters top⟩
  · intro others hothers
    have hsame : beginnings others = beginnings filters := by
      ext f
      simp [mem_beginnings, hothers]
    refine ⟨?_, ?_⟩
    · have hothersNodup := nodup_nodes ((distinct_empty n).grow others) ((placed_empty n).grow others)
      refine (List.perm_ext_iff_of_nodup hothersNodup hnodup).2 ?_
      intro f
      rw [← List.mem_toFinset, ← List.mem_toFinset, toFinset_filters_grow, hset, hsame]
    · intro f
      rw [grid?_grow_empty, grid?_grow_empty, hsame]

end FilterTree

end Geocast
