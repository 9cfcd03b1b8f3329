import Geocast.Proofs.FilterTree.Growth
import Geocast.Proofs.FilterTree.Matching
import Geocast.Proofs.Packet.Topics
import Mathlib.Data.List.Perm.Basic

/-!
# The walk finds each filter that matches once

A front of the walk is a list of different nodes at one depth. The next front lies one level deeper,
at the level of the topic or at `+`, and these are two levels because the topic is a name. What the
walk leaves behind ends with `#`, which is neither of them.

* `nodup_walk`: the walk finds no node twice.
* `matching_grow`: in a tree that was grown along valid filters the walk finds exactly the nodes
  whose filter matches the topic, and never the root.
-/
namespace Geocast

namespace Topic

theorem multiOnlyLast_of_prefix {ls ms : List Level} (h : ls <+: ms)
    (hms : multiOnlyLast ms = true) : multiOnlyLast ls = true := by
  obtain ⟨further, rfl⟩ := h
  induction ls with
  | nil => rfl
  | cons l ls ih =>
    cases ls with
    | nil => rfl
    | cons l' ls =>
      simp only [List.cons_append, multiOnlyLast, Bool.and_eq_true] at hms ⊢
      exact ⟨hms.1, ih hms.2⟩

theorem ne_wildcard_of_isName {topic : Topic} (h : topic.isName = true) {l : Level}
    (hl : l ∈ topic.levels) : l ≠ .single ∧ l ≠ .multi := by
  simp only [isName, Bool.not_eq_true', List.any_eq_false] at h
  have hwild := h l hl
  constructor <;> intro heq <;> simp [heq, Level.isWildcard] at hwild

theorem push_inj {s t : Topic} {l m : Level} : s.push l = t.push m ↔ s = t ∧ l = m := by
  cases s
  cases t
  simp [push]

end Topic

namespace Node

/-! ## Nodes below a node -/

theorem Placed.next {n m : Node} (hn : n.Placed) {l : Level} (h : m ∈ next l n) :
    ∃ x, (x = l ∨ x = .single) ∧ m.PlacedAt n.filter x := by
  rcases mem_next.1 h with hchild | hchild
  · exact ⟨l, .inl rfl, hn.child? hchild⟩
  · exact ⟨.single, .inr rfl, hn.child? hchild⟩

theorem Placed.rest {n m : Node} (hn : n.Placed) (h : m ∈ n.rest) : m.PlacedAt n.filter .multi :=
  hn.child? (mem_rest.1 h)

theorem nodup_next {n : Node} (hn : n.Placed) {l : Level} (h : l ≠ .single) :
    ((next l n).map filter).Nodup := by
  unfold Node.next
  cases hl : n.child? l with
  | none => cases n.child? .single <;> simp
  | some m =>
    cases hs : n.child? .single with
    | none => simp
    | some m' => simp [(hn.child? hl).filter, (hn.child? hs).filter, Topic.push_inj, h]

theorem nodup_rest (n : Node) : (n.rest.map filter).Nodup := by
  unfold Node.rest
  cases n.child? .multi <;> simp

theorem nodup_flatMap_below {below : Node → List Node} {front : List Node}
    (hfront : (front.map filter).Nodup) (hbelow : ∀ n ∈ front, ((below n).map filter).Nodup)
    (hplaced : ∀ n ∈ front, ∀ m ∈ below n, ∃ x, m.PlacedAt n.filter x) :
    ((front.flatMap below).map filter).Nodup := by
  rw [List.map_flatMap, List.nodup_flatMap]
  refine ⟨hbelow, (List.pairwise_map.1 hfront).imp_of_mem ?_⟩
  intro n n' hn hn' hne f hf hf'
  obtain ⟨m, hm, rfl⟩ := List.mem_map.1 hf
  obtain ⟨m', hm', heq⟩ := List.mem_map.1 hf'
  obtain ⟨x, hx⟩ := hplaced n hn m hm
  obtain ⟨x', hx'⟩ := hplaced n' hn' m' hm'
  rw [hx.filter, hx'.filter, Topic.push_inj] at heq
  exact hne heq.1.symm

/-! ## The walk -/

/-- The nodes of a front know their place, and are different nodes at one depth. -/
structure Abreast (depth : Nat) (front : List Node) : Prop where
  placed : ∀ n ∈ front, n.Placed
  depth : ∀ n ∈ front, n.filter.levels.length = depth
  nodup : (front.map filter).Nodup

variable {depth : Nat} {front : List Node}

theorem Abreast.nodup_rest (h : Abreast depth front) :
    ((front.flatMap Node.rest).map filter).Nodup :=
  nodup_flatMap_below h.nodup (fun n _ => Node.nodup_rest n)
    fun n hn _ hm => ⟨.multi, (h.placed n hn).rest hm⟩

theorem Abreast.next (h : Abreast depth front) {l : Level} (hl : l ≠ .single) :
    Abreast (depth + 1) (front.flatMap (Node.next l)) := by
  have hbelow : ∀ n ∈ front, ∀ m ∈ Node.next l n, ∃ x, m.PlacedAt n.filter x := by
    intro n hn m hm
    obtain ⟨x, -, hx⟩ := (h.placed n hn).next hm
    exact ⟨x, hx⟩
  refine ⟨?_, ?_, nodup_flatMap_below h.nodup (fun n hn => nodup_next (h.placed n hn) hl) hbelow⟩
  · intro m hm
    obtain ⟨n, hn, hmn⟩ := List.mem_flatMap.1 hm
    obtain ⟨x, hx⟩ := hbelow n hn m hmn
    exact hx.below
  · intro m hm
    obtain ⟨n, hn, hmn⟩ := List.mem_flatMap.1 hm
    obtain ⟨x, hx⟩ := hbelow n hn m hmn
    simp [hx.filter, Topic.push, h.depth n hn]

/-- The walk finds no node twice: the `#` nodes below a front differ from each other and from all
that is found further on. -/
theorem nodup_walk {topic : List Level} (hname : ∀ l ∈ topic, l ≠ .single ∧ l ≠ .multi)
    (h : Abreast depth front) : ((walk topic front).map filter).Nodup := by
  induction topic generalizing front depth with
  | nil =>
    have hperm : (front.flatMap Node.rest ++ front).Perm (walk [] front) := by
      have := List.flatMap_append_perm front Node.rest fun n => [n]
      rwa [List.flatMap_singleton'] at this
    refine (hperm.map _).nodup_iff.1 ?_
    rw [List.map_append, List.nodup_append]
    refine ⟨h.nodup_rest, h.nodup, ?_⟩
    rintro _ hf _ hg heq
    obtain ⟨m, hm, rfl⟩ := List.mem_map.1 hf
    obtain ⟨n', hn', rfl⟩ := List.mem_map.1 hg
    obtain ⟨n, hn, hrest⟩ := List.mem_flatMap.1 hm
    have hdepth := congrArg (·.levels.length) heq
    simp [((h.placed n hn).rest hrest).filter, Topic.push, h.depth n hn, h.depth n' hn'] at hdepth
  | cons l topic ih =>
    obtain ⟨hsingle, hmulti⟩ := hname l (List.mem_cons_self ..)
    have hwalk := ih (fun k hk => hname k (List.mem_cons_of_mem _ hk)) (h.next hsingle)
    rw [walk, List.map_append, List.nodup_append]
    refine ⟨h.nodup_rest, hwalk, ?_⟩
    rintro _ hf _ hg heq
    obtain ⟨m, hm, rfl⟩ := List.mem_map.1 hf
    obtain ⟨m', hm', rfl⟩ := List.mem_map.1 hg
    obtain ⟨n, hn, hrest⟩ := List.mem_flatMap.1 hm
    obtain ⟨c, hc, ls, hdesc, -⟩ := matches_of_mem_walk hm'
    obtain ⟨n', hn', hcn⟩ := List.mem_flatMap.1 hc
    obtain ⟨x, hx, hplaced⟩ := (h.placed n' hn').next hcn
    -- both filters go through the front at one depth; there the one goes on with `#`
    have hlevels := congrArg Topic.levels heq
    rw [((h.placed n hn).rest hrest).filter, (hplaced.below.descend? hdesc).1, hplaced.filter,
      Topic.push, Topic.push, List.append_assoc] at hlevels
    have hsame := (List.append_inj hlevels (by rw [h.depth n hn, h.depth n' hn'])).2
    rcases hx with rfl | rfl
    · simp [Ne.symm hmulti] at hsame
    · simp at hsame

end Node

namespace FilterTree

/-- In a tree that was grown along valid filters, the nodes that are found for a topic name are
those whose filter matches it: each once, whether a filter ends there or only goes on, and never
the root. -/
theorem matching_grow (n : Nat) {filters : List Topic} {topic : Topic}
    (hvalid : ∀ f ∈ filters, f.isValid = true) (hname : topic.isName = true)
    (hlevels : topic.levels ≠ []) :
    let t := (empty n).grow filters
    (∀ m, m ∈ t.matching topic ↔ m ∈ t.nodes ∧ m.filter.accepts topic = true) ∧
      ((t.matching topic).map Node.filter).Nodup ∧ t.root ∉ t.matching topic := by
  intro t
  have hdistinct : t.Distinct := (distinct_empty n).grow filters
  have hplaced : t.Placed := (placed_empty n).grow filters
  have hexact : ∀ m, m ∈ t.matching topic ↔ m ∈ t.nodes ∧ m.filter.accepts topic = true := by
    intro m
    constructor
    · intro hm
      obtain ⟨hget, haccepts⟩ := accepts_of_mem_matching hplaced hm
      refine ⟨(mem_nodes_iff hdistinct hplaced).2 ⟨?_, hget⟩, haccepts⟩
      intro hempty
      rw [Topic.accepts, hempty] at haccepts
      obtain ⟨l, ls, htopic⟩ := List.exists_cons_of_ne_nil hlevels
      simp [htopic, Topic.matchLevels] at haccepts
    · intro hm
      obtain ⟨hnode, haccepts⟩ := hm
      have hbegins : m.filter ∈ beginnings filters := by
        rw [← toFinset_filters_grow n, List.mem_toFinset]
        exact List.mem_map_of_mem hnode
      obtain ⟨-, f, hf, hprefix⟩ := mem_beginnings.1 hbegins
      have hlast := Topic.multiOnlyLast_of_prefix hprefix
        (Topic.multiOnlyLast_of_isValid (hvalid f hf))
      exact mem_matching ((mem_nodes_iff hdistinct hplaced).1 hnode).2 hlast haccepts
  refine ⟨hexact, ?_, ?_⟩
  · have hfront : Node.Abreast 0 [t.root] :=
      ⟨by simpa using hplaced.below, by simp [hplaced.filter], by simp⟩
    exact Node.nodup_walk (fun l hl => Topic.ne_wildcard_of_isName hname hl) hfront
  · intro hroot
    have hnode := ((hexact t.root).1 hroot).1
    refine ((mem_nodes_iff hdistinct hplaced).1 hnode).1 ?_
    rw [hplaced.filter]

/-- Between `#`, `a/#` and `a/b/c` the topic `a` finds `#` at the root, `#` below its own end, and
`a`, which was only made on the way. -/
theorem matching_grow_on_the_way :
    let filters : List Topic := [⟨[.multi]⟩, ⟨[.normal "a", .normal "b", .normal "c"]⟩,
      ⟨[.normal "a", .multi]⟩]
    let t := (empty 1).grow filters
    ((∀ f ∈ filters, f.isValid = true) ∧ Topic.isName ⟨[.normal "a"]⟩ = true) ∧
      (t.matching ⟨[.normal "a"]⟩).map Node.filter =
        [⟨[.multi]⟩, ⟨[.normal "a", .multi]⟩, ⟨[.normal "a"]⟩] ∧
      (∀ m, m ∈ t.matching ⟨[.normal "a"]⟩ ↔
        m ∈ t.nodes ∧ m.filter.accepts ⟨[.normal "a"]⟩ = true) ∧
      ((t.matching ⟨[.normal "a"]⟩).map Node.filter).Nodup ∧
      t.root ∉ t.matching ⟨[.normal "a"]⟩ := by
  intro filters t
  have hvalid : ∀ f ∈ filters, f.isValid = true := by decide
  exact ⟨⟨hvalid, by decide⟩, by decide, matching_grow 1 hvalid (by decide) (by decide)⟩

end FilterTree

end Geocast
