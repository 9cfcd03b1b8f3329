import Geocast.Grid
import Geocast.Text.Quoted

/-!
# The tree of topic filters

A node for every beginning of a topic filter that was ever subscribed to, below a root for the empty
one. Wildcard levels are ordinary branches. Every node has a grid of the subscriptions whose filter
ends there.

A node is written once: when it is made below another, it takes its filter from the filter there and
the fineness of its grid from the grid there. Nothing ties a filter to the place of its node but the
way it was made.

The branches of a node are kept as a list: each has a key, the node under that key with the branches
below it, and the branches beside it.

* `Node.sprout`, `Node.childOrNew`: the node that is made under a level, if there is none.
* `Node.create`: goes along levels, making what is missing, and changes the last grid.
* `Node.modify`: the same without making anything.
* `FilterTree.get?`: the node at the end of a filter.
* `FilterTree.matching`: the nodes whose filters match a topic, found level by level.
-/
namespace Geocast

/-- The branches of a node: under each key the level, filter and grid of a node. -/
inductive Branches where
  | none
  | branch (key level : Level) (filter : Topic) (grid : Grid) (below beside : Branches)

structure Node where
  level : Level
  filter : Topic
  grid : Grid
  below : Branches

namespace Branches

def find? (l : Level) : Branches → Option Node
  | none => Option.none
  | branch key level filter grid below beside =>
    if key = l then some ⟨level, filter, grid, below⟩ else find? l beside

/-- Puts a node under a key: in the place of the one that is there, or at the end. -/
def put (l : Level) (n : Node) : Branches → Branches
  | none => branch l n.level n.filter n.grid n.below none
  | branch key level filter grid below beside =>
    if key = l then branch key n.level n.filter n.grid n.below beside
    else branch key level filter grid below (put l n beside)

/-- The number of nodes below. -/
def size : Branches → Nat
  | none => 0
  | branch _ _ _ _ below beside => 1 + below.size + beside.size

/-- A line for every node at most `top` levels below, indented by its depth. -/
def lines (top depth : Nat) : Branches → List String
  | none => []
  | branch key _ _ grid below beside =>
    let line := String.ofList (List.replicate (depth * 3) ' ') ++ " " ++ Text.shown key.display ++
      ", subscription ids: " ++ toString grid.memberships
    match top with
    | 0 => []
    | rest + 1 => line :: lines rest (depth + 1) below ++ lines top depth beside

end Branches

namespace Node

/-- The node that is made under a level: its filter goes one level further, its grid is empty and as
fine as the one here. -/
def sprout (n : Node) (l : Level) : Node :=
  ⟨l, n.filter.push l, Grid.empty n.grid.granularity, .none⟩

def child? (n : Node) (l : Level) : Option Node := n.below.find? l

/-- The child under a level, made if there is none. -/
def childOrNew (n : Node) (l : Level) : Node := (n.child? l).getD (n.sprout l)

/-- The node at the end of the levels. -/
def descend? (n : Node) : List Level → Option Node
  | [] => some n
  | l :: rest => (n.child? l).bind fun m => m.descend? rest

/-- Goes along the levels, making the nodes that are missing, and changes the grid at the end. -/
def create (f : Grid → Grid) : List Level → Node → Node
  | [], n => { n with grid := f n.grid }
  | l :: rest, n => { n with below := n.below.put l (create f rest (n.childOrNew l)) }

/-- Goes along the levels and changes the grid at the end, if the way exists. -/
def modify (f : Grid → Grid) : List Level → Node → Node
  | [], n => { n with grid := f n.grid }
  | l :: rest, n =>
    match n.child? l with
    | some c => { n with below := n.below.put l (modify f rest c) }
    | none => n

/-- The nodes below that a topic level leads to: the one of that level and the one of `+`. -/
def next (l : Level) (n : Node) : List Node := (n.child? l).toList ++ (n.child? .single).toList

/-- The node below that matches whatever follows. -/
def rest (n : Node) : List Node := (n.child? .multi).toList

/-- The nodes that match the levels below the nodes of a front. All `#` nodes of the front come
first, then those of the further fronts; at the end of the topic each node follows its own `#`. -/
def walk : List Level → List Node → List Node
  | [], front => front.flatMap fun n => n.rest ++ [n]
  | l :: topic, front => front.flatMap rest ++ walk topic (front.flatMap (next l))

end Node

/-- The tree of topic filters. The root is the node of the empty filter and has a grid as well. -/
structure FilterTree where
  root : Node

namespace FilterTree

/-- The tree without filters; no cells per degree count as one. -/
def empty (granularity : Nat) : FilterTree := ⟨⟨.blank, ⟨[]⟩, Grid.empty granularity, .none⟩⟩

/-- The number of cells per degree in the grids of all nodes. -/
def granularity (t : FilterTree) : Nat := t.root.grid.granularity

def get? (t : FilterTree) (filter : Topic) : Option Node := t.root.descend? filter.levels

/-- The tree with the nodes along a filter, the grid of the last one changed. -/
def create (t : FilterTree) (filter : Topic) (f : Grid → Grid) : FilterTree :=
  ⟨t.root.create f filter.levels⟩

/-- The tree with the grid at the end of a filter changed, if there is such a node. -/
def modify (t : FilterTree) (filter : Topic) (f : Grid → Grid) : FilterTree :=
  ⟨t.root.modify f filter.levels⟩

/-- The nodes whose subscriptions match a publication on the topic. -/
def matching (t : FilterTree) (topic : Topic) : List Node := Node.walk topic.levels [t.root]

/-- The number of nodes, the root not counted. -/
def size (t : FilterTree) : Nat := t.root.below.size

/-- A line for every node at most `top` levels below the root. -/
def lines (t : FilterTree) (top : Nat) : List String := t.root.below.lines top 0

def summary (t : FilterTree) : String :=
  "TopicTree \x7b nodes_size: " ++ toString t.size ++ ", granularity: " ++
    toString t.granularity ++ " \x7d"

end FilterTree

end Geocast
