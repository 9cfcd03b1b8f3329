import Geocast.Proofs.FilterTree.Placed

/-!
# The walk through the tree finds the filters that match

`Node.walk` goes along a topic with a front of nodes, and never compares a filter with the topic.
`Topic.accepts` compares the two level by level, and knows nothing of the tree.

* `accepts_of_mem_matching`: every node that is found is in the tree, and its filter matches, if
  nodes know their place.
* `mem_matching`: every node of the tree whose filter matches is found. The filter must have `#`
  nowhere but at the end: the walk never goes below a `#`.
-/
namespace Geocast

namespace Topic

/-! ## Levels against levels -/

theorem matchLevels_cons_self (l : Level) {filter topic : List Level}
    (h : matchLevels filter topic = true) : matchLevels (l :: filter) (l :: topic) = true := by
  cases l with
  | multi => rfl
  | single => exact h
  | blank => simpa [matchLevels] using h
  | normal text => simpa [matchLevels] using h

/-- What matches the end of a topic: nothing more, or a last `#`. -/
theorem matchLevels_nil_iff {filter : List Level} :
    matchLevels filter [] = true ↔ filter = [] ∨ filter = [.multi] := by
  rcases filter with _ | ⟨f, _ | ⟨g, filter⟩⟩
  · simp [matchLevels]
  · cases f <;> simp [matchLevels]
  · cases f <;> simp [matchLevels]

/-- What matches a further level: a `#`, or a `+` or the level itself before what matches the rest
of the topic. -/
theorem matchLevels_cons_iff {filter topic : List Level} {l : Level} :
    matchLevels filter (l :: topic) = true ↔
      ∃ f rest, filter = f :: rest ∧
        (f = .multi ∨ (f = .single ∨ f = l) ∧ matchLevels rest topic = true) := by
  constructor
  · intro h
    cases filter with
    | nil => cases h
    | cons f rest =>
      refine ⟨f, rest, rfl, ?_⟩
      cases f with
      | multi => exact .inl rfl
      | single => exact .inr ⟨.inl rfl, h⟩
      | blank =>
        simp only [matchLevels, Bool.and_eq_true, beq_iff_eq] at h
        exact .inr ⟨.inr h.1, h.2⟩
      | normal text =>
        simp only [matchLevels, Bool.and_eq_true, beq_iff_eq] at h
        exact .inr ⟨.inr h.1, h.2⟩
  · rintro ⟨f, rest, rfl, rfl | ⟨rfl | rfl, h⟩⟩
    · rfl
    · exact h
    · exact matchLevels_cons_self f h

theorem eq_nil_of_multiOnlyLast {rest : List Level}
    (h : multiOnlyLast (.multi :: rest) = true) : rest = [] := by
  cases rest with
  | nil => rfl
  | cons l rest => simp [multiOnlyLast] at h

theorem multiOnlyLast_tail {l : Level} {rest : List Level}
    (h : multiOnlyLast (l :: rest) = true) : multiOnlyLast rest = true := by
  cases rest with
  | nil => rfl
  | cons m rest =>
    simp only [multiOnlyLast, Bool.and_eq_true] at h
    exact h.2

end Topic

namespace Node

/-! ## Fronts -/

theorem mem_next {l : Level} {n m : Node} :
    m ∈ next l n ↔ n.child? l = some m ∨ n.child? .single = some m := by
  simp [next]

theorem mem_rest {n m : Node} : m ∈ n.rest ↔ n.child? .multi = some m := by
  simp [rest]

/-- A node that the walk finds lies below the front, at levels that match the topic. -/
theorem matches_of_mem_walk {topic : List Level} {front : List Node} {m : Node}
    (h : m ∈ walk topic front) :
    ∃ n ∈ front, ∃ ls, n.descend? ls = some m ∧ Topic.matchLevels ls topic = true := by
  induction topic generalizing front with
  | nil =>
    simp only [walk, List.mem_flatMap, List.mem_append, List.mem_singleton] at h
    obtain ⟨n, hn, hrest | rfl⟩ := h
    · exact ⟨n, hn, [.multi], descend?_of_child? (mem_rest.1 hrest) [], rfl⟩
    · exact ⟨m, hn, [], rfl, rfl⟩
  | cons l topic ih =>
    simp only [walk, List.mem_append, List.mem_flatMap] at h
    rcases h with ⟨n, hn, hrest⟩ | hwalk
    · exact ⟨n, hn, [.multi], descend?_of_child? (mem_rest.1 hrest) [], rfl⟩
    · obtain ⟨c, hc, ls, hdesc, hmatch⟩ := ih hwalk
      obtain ⟨n, hn, hnext⟩ := List.mem_flatMap.1 hc
      rcases mem_next.1 hnext with hchild | hchild
      · refine ⟨n, hn, l :: ls, ?_, Topic.matchLevels_cons_self l hmatch⟩
        rw [descend?_of_child? hchild, hdesc]
      · refine ⟨n, hn, .single :: ls, ?_, hmatch⟩
        rw [descend?_of_child? hchild, hdesc]

/-- The walk finds every node below the front at levels that match the topic. -/
theorem mem_walk {topic ls : List Level} {front : List Node} {n m : Node} (hn : n ∈ front)
    (hdesc : n.descend? ls = some m) (hlast : Topic.multiOnlyLast ls = true)
    (hmatch : Topic.matchLevels ls topic = true) : m ∈ walk topic front := by
  induction topic generalizing front n ls with
  | nil =>
    simp only [walk, List.mem_flatMap, List.mem_append, List.mem_singleton]
    refine ⟨n, hn, ?_⟩
    rcases Topic.matchLevels_nil_iff.1 hmatch with rfl | rfl
    · exact .inr (Option.some.inj hdesc).symm
    · obtain ⟨c, hchild, hc⟩ := Option.bind_eq_some_iff.1 hdesc
      obtain rfl := Option.some.inj hc
      exact .inl (mem_rest.2 hchild)
  | cons l topic ih =>
    obtain ⟨f, rest, rfl, hf⟩ := Topic.matchLevels_cons_iff.1 hmatch
    obtain ⟨c, hchild, hc⟩ := Option.bind_eq_some_iff.1 hdesc
    simp only [walk, List.mem_append, List.mem_flatMap]
    rcases hf with rfl | ⟨hf, hrest⟩
    · obtain rfl := Topic.eq_nil_of_multiOnlyLast hlast
      obtain rfl := Option.some.inj hc
      exact .inl ⟨n, hn, mem_rest.2 hchild⟩
    · refine .inr (ih (List.mem_flatMap.2 ⟨n, hn, ?_⟩) hc (Topic.multiOnlyLast_tail hlast) hrest)
      rcases hf with rfl | rfl
      · exact mem_next.2 (.inr hchild)
      · exact mem_next.2 (.inl hchild)

end Node

namespace FilterTree

/-! ## The tree -/

theorem accepts_of_mem_matching {t : FilterTree} (hplaced : t.Placed) {topic : Topic} {n : Node}
    (h : n ∈ t.matching topic) : t.get? n.filter = some n ∧ n.filter.accepts topic = true := by
  obtain ⟨root, hroot, ls, hdesc, hmatch⟩ := Node.matches_of_mem_walk h
  obtain rfl := List.mem_singleton.1 hroot
  have hfilter : n.filter.levels = ls := hplaced.filter_descend? hdesc
  subst hfilter
  exact ⟨hdesc, hmatch⟩

theorem mem_matching {t : FilterTree} {filter topic : Topic} {n : Node}
    (hget : t.get? filter = some n) (hlast : Topic.multiOnlyLast filter.levels = true)
    (haccepts : filter.accepts topic = true) : n ∈ t.matching topic :=
  Node.mem_walk (List.mem_singleton_self _) hget hlast haccepts

end FilterTree

end Geocast
