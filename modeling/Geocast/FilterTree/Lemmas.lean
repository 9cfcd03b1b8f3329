import Geocast.FilterTree

/-!
# What the operations of the filter tree do

`grid?` is the view of a tree: the grid at the end of a filter, if the tree has that node. Making
the nodes along a filter adds grids for its beginnings and changes the grid at its end
(`grid?_create`); changing a grid changes no other (`grid?_modify`). `reach` is the node that going
along a filter gives, whether it was there or is made on the way.
-/
namespace Geocast

namespace Branches

/-- After a node is put under a key, it is found there, and the others are as before. -/
theorem find?_put (l m : Level) (n : Node) (bs : Branches) :
    (bs.put l n).find? m = if l = m then some n else bs.find? m := by
  induction bs with
  | none => by_cases h : l = m <;> simp [put, find?, h]
  | branch key level filter grid below beside _ ih =>
    by_cases hl : key = l
    · subst hl
      by_cases h : key = m <;> simp [put, find?, h]
    · by_cases h : key = m
      · subst h
        simp [put, find?, hl, Ne.symm hl]
      · simp [put, find?, hl, h, ih]

theorem put_of_find? {l : Level} {n : Node} {bs : Branches} (h : bs.find? l = some n) :
    bs.put l n = bs := by
  induction bs with
  | none => simp [find?] at h
  | branch key level filter grid below beside _ ih =>
    simp only [find?] at h
    split at h
    next hl =>
      cases h
      simp [put, hl]
    next hl => simp [put, hl, ih h]

end Branches

namespace Node

@[simp] theorem descend?_nil (n : Node) : n.descend? [] = some n := rfl

theorem descend?_cons (n : Node) (l : Level) (ls : List Level) :
    n.descend? (l :: ls) = (n.child? l).bind fun m => m.descend? ls := rfl

theorem descend?_of_child? {n c : Node} {l : Level} (h : n.child? l = some c) (ls : List Level) :
    n.descend? (l :: ls) = c.descend? ls := by
  rw [descend?_cons, h, Option.bind_some]

theorem childOrNew_of_child? {n c : Node} {l : Level} (h : n.child? l = some c) :
    n.childOrNew l = c := by
  rw [childOrNew, h, Option.getD_some]

theorem childOrNew_of_none {n : Node} {l : Level} (h : n.child? l = none) :
    n.childOrNew l = n.sprout l := by
  rw [childOrNew, h, Option.getD_none]

@[simp] theorem child?_sprout (n : Node) (l m : Level) : (n.sprout l).child? m = none := rfl

@[simp] theorem filter_create (f : Grid → Grid) (ls : List Level) (n : Node) :
    (n.create f ls).filter = n.filter := by
  cases ls <;> rfl

@[simp] theorem level_create (f : Grid → Grid) (ls : List Level) (n : Node) :
    (n.create f ls).level = n.level := by
  cases ls <;> rfl

@[simp] theorem filter_modify (f : Grid → Grid) (ls : List Level) (n : Node) :
    (n.modify f ls).filter = n.filter := by
  cases ls with
  | nil => rfl
  | cons l ls =>
    rw [modify]
    split <;> rfl

@[simp] theorem level_modify (f : Grid → Grid) (ls : List Level) (n : Node) :
    (n.modify f ls).level = n.level := by
  cases ls with
  | nil => rfl
  | cons l ls =>
    rw [modify]
    split <;> rfl

theorem child?_create (f : Grid → Grid) (l m : Level) (ls : List Level) (n : Node) :
    (n.create f (l :: ls)).child? m =
      if l = m then some ((n.childOrNew l).create f ls) else n.child? m :=
  Branches.find?_put l m _ n.below

theorem child?_modify (f : Grid → Grid) (l m : Level) (ls : List Level) (n : Node) :
    (n.modify f (l :: ls)).child? m =
      if l = m then (n.child? l).map (·.modify f ls) else n.child? m := by
  rw [modify]
  cases h : n.child? l with
  | none =>
    by_cases hlm : l = m
    · subst hlm
      simp [h]
    · simp [hlm]
  | some c => exact Branches.find?_put l m _ n.below

/-! ## Grids by their way -/

def grid? (ls : List Level) (n : Node) : Option Grid := (n.descend? ls).map (·.grid)

@[simp] theorem grid?_nil (n : Node) : n.grid? [] = some n.grid := rfl

theorem grid?_cons (l : Level) (ls : List Level) (n : Node) :
    n.grid? (l :: ls) = (n.child? l).bind (grid? ls) := by
  rw [grid?, descend?_cons]
  cases n.child? l <;> rfl

theorem grid?_sprout (n : Node) (l : Level) (ls : List Level) :
    (n.sprout l).grid? ls = if ls = [] then some (Grid.empty n.grid.granularity) else none := by
  cases ls <;> rfl

/-- The node at the end of the levels, as it is when the missing ones are made. -/
def reach (n : Node) : List Level → Node
  | [] => n
  | l :: ls => (n.childOrNew l).reach ls

theorem reach_of_descend? {n m : Node} {ls : List Level} (h : n.descend? ls = some m) :
    n.reach ls = m := by
  induction ls generalizing n with
  | nil => exact Option.some.inj h
  | cons l ls ih =>
    obtain ⟨c, hc, hm⟩ := Option.bind_eq_some_iff.1 h
    rw [reach, childOrNew_of_child? hc]
    exact ih hm

theorem grid_reach_of_none {n : Node} {ls : List Level} (h : n.grid? ls = none) :
    ∃ k, (n.reach ls).grid = Grid.empty k := by
  induction ls generalizing n with
  | nil => cases h
  | cons l ls ih =>
    rw [grid?_cons] at h
    rw [reach]
    cases hchild : n.child? l with
    | some c =>
      rw [hchild] at h
      rw [childOrNew_of_child? hchild]
      exact ih h
    | none =>
      rw [childOrNew_of_none hchild]
      cases ls with
      | nil => exact ⟨_, rfl⟩
      | cons l' ls => exact ih (grid?_sprout n l (l' :: ls))

/-- Changing the grid at the end of some levels changes that grid, if it is there, and no other. -/
theorem grid?_modify (f : Grid → Grid) (ls ms : List Level) (n : Node) :
    (n.modify f ls).grid? ms = if ls = ms then (n.grid? ms).map f else n.grid? ms := by
  induction ls generalizing ms n with
  | nil => cases ms <;> rfl
  | cons l ls ih =>
    cases ms with
    | nil =>
      rw [modify]
      split <;> rfl
    | cons m ms =>
      simp only [grid?_cons, child?_modify]
      by_cases hlm : l = m
      · subst hlm
        cases n.child? l with
        | none => simp
        | some c => simp [ih]
      · simp [hlm]

/-- Making the nodes along some levels changes the grid at their end, leaves at every beginning the
grid that is reached there, and leaves the others as they were. -/
theorem grid?_create (f : Grid → Grid) (ls ms : List Level) (n : Node) :
    (n.create f ls).grid? ms =
      if ms <+: ls then some (if ms = ls then f (n.reach ms).grid else (n.reach ms).grid)
      else n.grid? ms := by
  induction ls generalizing ms n with
  | nil => cases ms <;> simp [create, reach, grid?_cons, child?]
  | cons l ls ih =>
    cases ms with
    | nil => simp [create, reach]
    | cons m ms =>
      simp only [grid?_cons, child?_create]
      by_cases hlm : l = m
      · subst hlm
        simp only [if_true, Option.bind_some, ih, List.cons_prefix_cons, true_and,
          List.cons.injEq, reach]
        -- below a node that is made there is nothing else
        split
        next => rfl
        next hprefix =>
          cases hchild : n.child? l with
          | none =>
            have hms : ms ≠ [] := by
              rintro rfl
              exact hprefix List.nil_prefix
            simp [childOrNew_of_none hchild, grid?_sprout, hms]
          | some c => simp [childOrNew_of_child? hchild]
      · simp [hlm, Ne.symm hlm]

end Node

namespace FilterTree

def grid? (t : FilterTree) (filter : Topic) : Option Grid := t.root.grid? filter.levels

/-- The node at the end of a filter, as it is when it and those on the way are made. -/
def reach (t : FilterTree) (filter : Topic) : Node := t.root.reach filter.levels

theorem grid?_of_get? {t : FilterTree} {filter : Topic} {n : Node} (h : t.get? filter = some n) :
    t.grid? filter = some n.grid := by
  rw [get?] at h
  rw [grid?, Node.grid?, h, Option.map_some]

theorem isSome_get? (t : FilterTree) (filter : Topic) :
    (t.get? filter).isSome = (t.grid? filter).isSome := by
  rw [grid?, Node.grid?, Option.isSome_map, get?]

/-- In a tree without filters only the empty filter has a grid. -/
theorem grid?_empty (n : Nat) (filter : Topic) :
    (empty n).grid? filter = if filter.levels = [] then some (Grid.empty n) else none := by
  rw [grid?]
  cases filter.levels <;> rfl

theorem grid?_modify (t : FilterTree) (filter other : Topic) (f : Grid → Grid) :
    (t.modify filter f).grid? other =
      if filter = other then (t.grid? other).map f else t.grid? other := by
  cases filter with | mk ls =>
  cases other with | mk ms =>
  simp only [grid?, modify, Node.grid?_modify, Topic.mk.injEq]

/-- Making the nodes along a filter changes the grid at its end, leaves at its beginnings the grids
that are reached there, and leaves the others as they were. -/
theorem grid?_create (t : FilterTree) (filter other : Topic) (f : Grid → Grid) :
    (t.create filter f).grid? other =
      if other.levels <+: filter.levels then
        some (if other = filter then f (t.reach other).grid else (t.reach other).grid)
      else t.grid? other := by
  cases filter with | mk ls =>
  cases other with | mk ms =>
  simp only [grid?, create, reach, Node.grid?_create, Topic.mk.injEq]

theorem grid_reach_of_grid? {t : FilterTree} {filter : Topic} {grid : Grid}
    (h : t.grid? filter = some grid) : (t.reach filter).grid = grid := by
  obtain ⟨m, hm, rfl⟩ := Option.map_eq_some_iff.1 h
  rw [reach, Node.reach_of_descend? hm]

theorem grid_reach_of_none {t : FilterTree} {filter : Topic} (h : t.grid? filter = none) :
    ∃ k, (t.reach filter).grid = Grid.empty k :=
  Node.grid_reach_of_none h

end FilterTree

end Geocast
