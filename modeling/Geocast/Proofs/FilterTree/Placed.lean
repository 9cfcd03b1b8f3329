import Geocast.FilterTree.Lemmas

/-!
# Nodes know their place

A node gets its level and its filter when it is made, from the node above it, and keeps them. Where
it is found later depends on the keys on the way to it alone. Matching goes from a node back to the
subscriptions to its filter, so the filter that is written in a node must be the way to it, in
whatever order the nodes were made.

* `Branches.Placed`: the nodes under some filter have the level of their key, and the filter that
  goes one level further.
* `FilterTree.Placed`: so it is everywhere below the root, which has the empty filter.
* `placed_empty`, `Placed.create`, `Placed.modify`: a tree starts so, and the operations keep it.
* `filter_of_get?`, `level_of_get?`: a node that is found at the end of a filter has that filter and
  its last level.
-/
namespace Geocast

/-! ## Below a node -/

/-- The nodes below a filter have the level of their key and the filter that ends with it. -/
def Branches.Placed (parent : Topic) : Branches → Prop
  | none => True
  | branch key level filter _ below beside =>
    level = key ∧ filter = parent.push key ∧ below.Placed filter ∧ beside.Placed parent

namespace Node

def Placed (n : Node) : Prop := n.below.Placed n.filter

/-- A node lies below a filter, under a key. -/
structure PlacedAt (parent : Topic) (key : Level) (n : Node) : Prop where
  level : n.level = key
  filter : n.filter = parent.push key
  below : n.Placed

end Node

namespace Branches

variable {parent : Topic} {bs : Branches} {l : Level} {c : Node}

theorem Placed.find? (h : bs.Placed parent) (hfind : bs.find? l = some c) : c.PlacedAt parent l := by
  induction bs with
  | none => cases hfind
  | branch key level filter grid below beside _ ih =>
    obtain ⟨hlevel, hfilter, hbelow, hbeside⟩ := h
    simp only [Branches.find?] at hfind
    split at hfind
    next hkey =>
      cases hfind
      subst hkey
      exact ⟨hlevel, hfilter, hbelow⟩
    next => exact ih hbeside hfind

theorem Placed.put (h : bs.Placed parent) (hc : c.PlacedAt parent l) :
    (bs.put l c).Placed parent := by
  induction bs with
  | none => exact ⟨hc.level, hc.filter, hc.below, trivial⟩
  | branch key level filter grid below beside _ ih =>
    obtain ⟨hlevel, hfilter, hbelow, hbeside⟩ := h
    simp only [Branches.put]
    split
    next hkey =>
      subst hkey
      exact ⟨hc.level, hc.filter, hc.below, hbeside⟩
    next => exact ⟨hlevel, hfilter, hbelow, ih hbeside⟩

end Branches

namespace Node

variable {n m : Node} {ls : List Level}

theorem Placed.child? (h : n.Placed) {l : Level} {c : Node} (hchild : n.child? l = some c) :
    c.PlacedAt n.filter l := Branches.Placed.find? h hchild

/-- The child that is there is in its place, and so is the one that is made. -/
theorem Placed.childOrNew (h : n.Placed) (l : Level) : (n.childOrNew l).PlacedAt n.filter l := by
  cases hchild : n.child? l with
  | some c =>
    rw [childOrNew_of_child? hchild]
    exact h.child? hchild
  | none =>
    rw [childOrNew_of_none hchild]
    exact ⟨rfl, rfl, trivial⟩

theorem Placed.create (h : n.Placed) (f : Grid → Grid) (ls : List Level) :
    (n.create f ls).Placed := by
  induction ls generalizing n with
  | nil => exact h
  | cons l ls ih =>
    have hchild := h.childOrNew l
    exact Branches.Placed.put h ⟨(level_create f ls _).trans hchild.level,
      (filter_create f ls _).trans hchild.filter, ih hchild.below⟩

theorem Placed.modify (h : n.Placed) (f : Grid → Grid) (ls : List Level) :
    (n.modify f ls).Placed := by
  induction ls generalizing n with
  | nil => exact h
  | cons l ls ih =>
    rw [Node.modify]
    cases hfound : n.child? l with
    | none => exact h
    | some c =>
      have hchild := h.child? hfound
      exact Branches.Placed.put h ⟨(level_modify f ls c).trans hchild.level,
        (filter_modify f ls c).trans hchild.filter, ih hchild.below⟩

/-- Going down some levels from a node leads to the filter that goes on with them. -/
theorem Placed.descend? (h : n.Placed) (hdesc : n.descend? ls = some m) :
    m.filter.levels = n.filter.levels ++ ls ∧ m.Placed := by
  induction ls generalizing n with
  | nil =>
    cases hdesc
    exact ⟨(List.append_nil _).symm, h⟩
  | cons l ls ih =>
    obtain ⟨c, hc, hm⟩ := Option.bind_eq_some_iff.1 hdesc
    have hchild := h.child? hc
    obtain ⟨hfilter, hplaced⟩ := ih hchild.below hm
    refine ⟨?_, hplaced⟩
    rw [hfilter, hchild.filter, Topic.push, List.append_assoc, List.singleton_append]

theorem Placed.level_descend? (h : n.Placed) (hdesc : n.descend? ls = some m) :
    m.level = ls.getLast?.getD n.level := by
  induction ls generalizing n with
  | nil =>
    cases hdesc
    rfl
  | cons l ls ih =>
    obtain ⟨c, hc, hm⟩ := Option.bind_eq_some_iff.1 hdesc
    have hchild := h.child? hc
    rw [ih hchild.below hm, hchild.level, List.getLast?_cons, Option.getD_some]

end Node

namespace FilterTree

/-! ## The whole tree -/

/-- The root has the empty filter, and all nodes below it the filters that lead to them. -/
structure Placed (t : FilterTree) : Prop where
  level : t.root.level = .blank
  filter : t.root.filter = ⟨[]⟩
  below : t.root.Placed

theorem placed_empty (n : Nat) : (empty n).Placed := ⟨rfl, rfl, trivial⟩

variable {t : FilterTree}

theorem Placed.create (h : t.Placed) (filter : Topic) (f : Grid → Grid) :
    (t.create filter f).Placed where
  level := (Node.level_create f filter.levels t.root).trans h.level
  filter := (Node.filter_create f filter.levels t.root).trans h.filter
  below := h.below.create f filter.levels

theorem Placed.modify (h : t.Placed) (filter : Topic) (f : Grid → Grid) :
    (t.modify filter f).Placed where
  level := (Node.level_modify f filter.levels t.root).trans h.level
  filter := (Node.filter_modify f filter.levels t.root).trans h.filter
  below := h.below.modify f filter.levels

theorem Placed.filter_descend? (h : t.Placed) {ls : List Level} {n : Node}
    (hn : t.root.descend? ls = some n) : n.filter.levels = ls := by
  rw [(h.below.descend? hn).1, h.filter, List.nil_append]

/-- A node that is found at the end of a filter has that filter. -/
theorem Placed.filter_of_get? (h : t.Placed) {filter : Topic} {n : Node}
    (hn : t.get? filter = some n) : n.filter = filter :=
  congrArg Topic.mk (h.filter_descend? hn)

/-- A node that is found at the end of a filter has its last level. -/
theorem Placed.level_of_get? (h : t.Placed) {filter : Topic} {n : Node}
    (hn : t.get? filter = some n) : n.level = filter.levels.getLast?.getD .blank := by
  rw [h.below.level_descend? hn, h.level]

end FilterTree

end Geocast
