import Geocast.Proofs.FilterTree.Placed
import Mathlib.Data.List.Nodup

/-!
# The nodes of a tree

A node is reached by going down from the root, one branch at each level; going down takes the first
branch that has the level. That this reaches every branch of the tree is not in the type: two
branches beside one another could have the same key, and the second would be counted and listed but
never found. `Distinct` excludes that, and every operation on trees keeps it.

* `FilterTree.nodes`: all nodes but the root, as they are stored, each before those below it.
* `length_nodes`, `lines_eq`: they are the nodes that are counted, and those that are listed, a line
  for each.
* `mem_nodes_iff`, `nodup_nodes`: in a tree without double keys, whose nodes know their place, they
  are the nodes that are found at the end of a filter, and no two have the same filter.
* `Distinct.create`: making the nodes along a filter makes no double key.
-/
namespace Geocast

/-- The line for a node, indented by its depth. -/
def Node.line (n : Node) : String :=
  String.ofList (List.replicate ((n.filter.levels.length - 1) * 3) ' ') ++ " " ++
    Text.shown n.level.display ++ ", subscription ids: " ++ toString n.grid.memberships

namespace Branches

variable {parent : Topic} {bs : Branches} {n : Node}

/-! ## Nodes as they are stored -/

def nodes : Branches → List Node
  | none => []
  | branch _ level filter grid below beside =>
    ⟨level, filter, grid, below⟩ :: below.nodes ++ beside.nodes

theorem length_nodes (bs : Branches) : bs.nodes.length = bs.size := by
  induction bs with
  | none => rfl
  | branch key level filter grid below beside ihBelow ihBeside =>
    simp only [nodes, size, List.length_append, List.length_cons, ihBelow, ihBeside]
    omega

/-- Nodes are deeper than what they lie below. -/
theorem Placed.depth_lt (h : bs.Placed parent) (hn : n ∈ bs.nodes) :
    parent.levels.length < n.filter.levels.length := by
  induction bs generalizing parent with
  | none => cases hn
  | branch key level filter grid below beside ihBelow ihBeside =>
    obtain ⟨-, hfilter, hbelow, hbeside⟩ := h
    have hlength : filter.levels.length = parent.levels.length + 1 := by
      rw [hfilter, Topic.push, List.length_append, List.length_singleton]
    simp only [nodes, List.cons_append, List.mem_cons, List.mem_append] at hn
    rcases hn with rfl | hn | hn
    · exact hlength.symm ▸ Nat.lt_succ_self _
    · have := ihBelow hbelow hn
      omega
    · exact ihBeside hbeside hn

theorem Placed.lines_eq (h : bs.Placed parent) (top : Nat) :
    bs.lines top parent.levels.length =
      (bs.nodes.filter fun n => n.filter.levels.length ≤ parent.levels.length + top).map
        Node.line := by
  induction bs generalizing parent top with
  | none => simp [lines, nodes]
  | branch key level filter grid below beside ihBelow ihBeside =>
    cases top with
    | zero =>
      have hdeep : ((branch key level filter grid below beside).nodes.filter
          fun n => n.filter.levels.length ≤ parent.levels.length + 0) = [] := by
        rw [List.filter_eq_nil_iff]
        intro n hn
        have := h.depth_lt hn
        simp only [decide_eq_true_eq]
        omega
      rw [hdeep]
      simp [lines]
    | succ top =>
      obtain ⟨rfl, rfl, hbelow, hbeside⟩ := h
      have hlength : (parent.push level).levels.length = parent.levels.length + 1 := by
        rw [Topic.push, List.length_append, List.length_singleton]
      have hlines := ihBelow hbelow top
      rw [hlength, Nat.add_assoc, Nat.add_comm 1 top] at hlines
      simp only [lines, nodes, hlines, ihBeside hbeside, List.cons_append, List.filter_cons,
        hlength, List.filter_append]
      rw [if_pos (by simp)]
      simp [Node.line, hlength]

/-! ## Trees without double keys -/

/-- No two branches beside one another have the same key. -/
def Distinct : Branches → Prop
  | none => True
  | branch key _ _ _ below beside =>
    beside.find? key = Option.none ∧ below.Distinct ∧ beside.Distinct

theorem Distinct.find? (h : bs.Distinct) {l : Level} (hfind : bs.find? l = some n) :
    n.below.Distinct := by
  induction bs with
  | none => cases hfind
  | branch key _ _ _ _ beside _ ih =>
    simp only [Branches.find?] at hfind
    split at hfind
    · cases hfind
      exact h.2.1
    · exact ih h.2.2 hfind

theorem Distinct.put (h : bs.Distinct) (hn : n.below.Distinct) (l : Level) :
    (bs.put l n).Distinct := by
  induction bs with
  | none => exact ⟨rfl, hn, trivial⟩
  | branch key level filter grid below beside _ ih =>
    obtain ⟨hkey, hbelow, hbeside⟩ := h
    by_cases hl : key = l
    · simp only [Branches.put, hl, if_true]
      exact ⟨hl ▸ hkey, hn, hbeside⟩
    · simp only [Branches.put, hl, if_false]
      refine ⟨?_, hbelow, ih hbeside⟩
      rw [find?_put, if_neg (Ne.symm hl)]
      exact hkey

/-- The nodes that are stored are those that are found by going down. -/
theorem mem_nodes_iff (h : bs.Distinct) :
    n ∈ bs.nodes ↔ ∃ l c ls, bs.find? l = some c ∧ c.descend? ls = some n := by
  induction bs with
  | none => simp [nodes, find?]
  | branch key level filter grid below beside ihBelow ihBeside =>
    obtain ⟨hkey, hbelow, hbeside⟩ := h
    simp only [nodes, List.cons_append, List.mem_cons, List.mem_append, ihBelow hbelow,
      ihBeside hbeside]
    constructor
    · intro hn
      rcases hn with rfl | ⟨l, c, ls, hc, hn⟩ | ⟨l, c, ls, hc, hn⟩
      · exact ⟨key, _, [], by rw [find?, if_pos rfl], rfl⟩
      · have hchild : Node.child? ⟨level, filter, grid, below⟩ l = some c := hc
        exact ⟨key, _, l :: ls, by rw [find?, if_pos rfl],
          (Node.descend?_of_child? hchild ls).trans hn⟩
      · -- a branch further on has another key, so the first one does not hide it
        have hne : key ≠ l := by
          rintro rfl
          rw [hkey] at hc
          cases hc
        exact ⟨l, c, ls, by rw [find?, if_neg hne, hc], hn⟩
    · rintro ⟨l, c, ls, hc, hn⟩
      rw [find?] at hc
      split at hc
      next =>
        cases hc
        cases ls with
        | nil => exact .inl (Option.some.inj hn).symm
        | cons l' ls =>
          obtain ⟨c, hc, hn⟩ := Option.bind_eq_some_iff.1 hn
          exact .inr (.inl ⟨l', c, ls, hc, hn⟩)
      next => exact .inr (.inr ⟨l, c, ls, hc, hn⟩)

theorem filter_of_mem_nodes (h : bs.Distinct) (hplaced : bs.Placed parent) (hn : n ∈ bs.nodes) :
    ∃ l ls, n.filter.levels = parent.levels ++ l :: ls ∧ (bs.find? l).isSome = true := by
  obtain ⟨l, c, ls, hc, hdesc⟩ := (mem_nodes_iff h).1 hn
  have hchild := hplaced.find? hc
  refine ⟨l, ls, ?_, by rw [hc]; rfl⟩
  rw [(hchild.below.descend? hdesc).1, hchild.filter, Topic.push, List.append_assoc,
    List.singleton_append]

theorem nodup_nodes (h : bs.Distinct) (hplaced : bs.Placed parent) :
    (bs.nodes.map Node.filter).Nodup := by
  induction bs generalizing parent with
  | none => exact List.nodup_nil
  | branch key level filter grid below beside ihBelow ihBeside =>
    obtain ⟨hkey, hbelow, hbeside⟩ := h
    obtain ⟨-, hfilter, hplacedBelow, hplacedBeside⟩ := hplaced
    simp only [nodes, List.cons_append, List.map_cons, List.map_append, List.nodup_cons,
      List.nodup_append, List.mem_append, List.mem_map]
    have hother : ∀ n ∈ beside.nodes,
        ∃ l ls, n.filter.levels = parent.levels ++ l :: ls ∧ l ≠ key := by
      intro n hn
      obtain ⟨l, ls, hlevels, hfind⟩ := filter_of_mem_nodes hbeside hplacedBeside hn
      refine ⟨l, ls, hlevels, ?_⟩
      rintro rfl
      rw [hkey] at hfind
      cases hfind
    refine ⟨?_, ihBelow hbelow hplacedBelow, ihBeside hbeside hplacedBeside, ?_⟩
    · rintro (⟨n, hn, heq⟩ | ⟨n, hn, heq⟩)
      · have := hplacedBelow.depth_lt hn
        rw [heq] at this
        omega
      · obtain ⟨l, ls, hlevels, hl⟩ := hother n hn
        rw [heq, hfilter, Topic.push] at hlevels
        simp [Ne.symm hl] at hlevels
    · rintro p ⟨n, hn, rfl⟩ q ⟨m, hm, rfl⟩ heq
      obtain ⟨l, ls, hmlevels, hl⟩ := hother m hm
      obtain ⟨k, ks, hnlevels, -⟩ := filter_of_mem_nodes hbelow hplacedBelow hn
      rw [heq, hmlevels, hfilter, Topic.push, List.append_assoc] at hnlevels
      simp [hl] at hnlevels

end Branches

theorem Node.distinct_create {n : Node} (h : n.below.Distinct) (f : Grid → Grid)
    (ls : List Level) : (n.create f ls).below.Distinct := by
  induction ls generalizing n with
  | nil => exact h
  | cons l ls ih =>
    refine Branches.Distinct.put h (ih ?_) l
    cases hchild : n.child? l with
    | some c =>
      rw [childOrNew_of_child? hchild]
      exact Branches.Distinct.find? h hchild
    | none =>
      rw [childOrNew_of_none hchild]
      trivial

namespace FilterTree

/-! ## The nodes of the whole tree -/

/-- The nodes of the tree but the root. -/
def nodes (t : FilterTree) : List Node := t.root.below.nodes

def Distinct (t : FilterTree) : Prop := t.root.below.Distinct

theorem distinct_empty (n : Nat) : (empty n).Distinct := trivial

variable {t : FilterTree}

theorem Distinct.create (h : t.Distinct) (filter : Topic) (f : Grid → Grid) :
    (t.create filter f).Distinct :=
  Node.distinct_create h f filter.levels

theorem mem_nodes_iff (h : t.Distinct) (hplaced : t.Placed) {n : Node} :
    n ∈ t.nodes ↔ n.filter.levels ≠ [] ∧ t.get? n.filter = some n := by
  rw [nodes, Branches.mem_nodes_iff h]
  constructor
  · rintro ⟨l, c, ls, hc, hn⟩
    have hdesc : t.root.descend? (l :: ls) = some n := by
      rw [Node.descend?_of_child? hc, hn]
    have hlevels := hplaced.filter_descend? hdesc
    refine ⟨?_, ?_⟩
    · rw [hlevels]
      exact List.cons_ne_nil l ls
    · rw [get?, hlevels, hdesc]
  · rintro ⟨hne, hget⟩
    obtain ⟨l, ls, hlevels⟩ := List.exists_cons_of_ne_nil hne
    rw [get?, hlevels] at hget
    obtain ⟨c, hc, hn⟩ := Option.bind_eq_some_iff.1 hget
    exact ⟨l, c, ls, hc, hn⟩

theorem nodup_nodes (h : t.Distinct) (hplaced : t.Placed) : (t.nodes.map Node.filter).Nodup :=
  Branches.nodup_nodes h hplaced.below

theorem size_eq (t : FilterTree) : t.size = t.nodes.length := (Branches.length_nodes _).symm

theorem lines_eq (hplaced : t.Placed) (top : Nat) :
    t.lines top = (t.nodes.filter fun n => n.filter.levels.length ≤ top).map Node.line := by
  have hlines := hplaced.below.lines_eq top
  rw [hplaced.filter, List.length_nil, Nat.zero_add] at hlines
  exact hlines

end FilterTree

end Geocast
