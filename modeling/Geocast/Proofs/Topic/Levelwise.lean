import Geocast.Proofs.FilterTree.Matching
import Geocast.Proofs.Topic.Grammar

/-!
# What a filter matches

`matchLevels` goes along a filter and a topic together and stops where one of them ends or a `#`
stands. Here the same is said place by place: a level of the filter covers the level of the topic at
the same place when it is `+` or that very level, and a `#` at the end covers all that is left,
which may be nothing.

* `Topic.Levelwise`: the levels of a filter cover those of a topic as far as both go.
* `matchLevels_of_notMem`: a filter without `#` matches the topics of its length that it covers.
* `matchLevels_concat_multi`: a filter that ends with `#` matches the topics whose beginning it
  covers.
* `accepts_iff_levelwise`: every valid filter is of one of these two kinds.
-/
namespace Geocast

/-- A level of a filter covers a level of a topic. -/
def Level.Covers (f l : Level) : Prop := f = .single ∨ f = l

namespace Topic

/-- Each level of a filter covers the level of a topic at the same place, where there is one. -/
def Levelwise (filter topic : List Level) : Prop :=
  ∀ (i : Nat) (f l : Level), filter[i]? = some f → topic[i]? = some l → f.Covers l

theorem levelwise_nil (topic : List Level) : Levelwise [] topic := by
  intro i f l hf
  cases hf

theorem levelwise_cons {f l : Level} {filter topic : List Level} :
    Levelwise (f :: filter) (l :: topic) ↔ f.Covers l ∧ Levelwise filter topic := by
  constructor
  · intro h
    exact ⟨h 0 f l rfl rfl, fun i => h (i + 1)⟩
  · intro ⟨hfirst, hrest⟩ i g m hg hm
    cases i with
    | zero =>
      cases hg
      cases hm
      exact hfirst
    | succ i => exact hrest i g m hg hm

/-- Without a `#` at the front, a filter and a topic are compared level by level. -/
theorem matchLevels_cons {f l : Level} {filter topic : List Level} (h : f ≠ .multi) :
    matchLevels (f :: filter) (l :: topic) = true ↔
      f.Covers l ∧ matchLevels filter topic = true := by
  rw [matchLevels_cons_iff]
  constructor
  · intro ⟨g, rest, heq, hg⟩
    cases heq
    exact hg.resolve_left h
  · intro hcovers
    exact ⟨f, filter, rfl, .inr hcovers⟩

theorem matchLevels_of_notMem {filter topic : List Level} (h : .multi ∉ filter) :
    matchLevels filter topic = true ↔
      filter.length = topic.length ∧ Levelwise filter topic := by
  induction filter generalizing topic with
  | nil =>
    cases topic with
    | nil => exact iff_of_true rfl ⟨rfl, levelwise_nil []⟩
    | cons l topic => simp [matchLevels]
  | cons f filter ih =>
    rw [List.mem_cons, not_or] at h
    cases topic with
    | nil => simp [matchLevels_nil_iff, Ne.symm h.1]
    | cons l topic =>
      rw [matchLevels_cons (Ne.symm h.1), ih h.2, levelwise_cons, List.length_cons,
        List.length_cons, Nat.add_right_cancel_iff]
      exact and_left_comm

/-- A filter that ends with `#` matches the topics whose beginning is covered by what stands before
the `#`. -/
theorem matchLevels_concat_multi {beginning topic : List Level} (h : .multi ∉ beginning) :
    matchLevels (beginning ++ [.multi]) topic = true ↔
      beginning.length ≤ topic.length ∧ Levelwise beginning topic := by
  induction beginning generalizing topic with
  | nil =>
    refine iff_of_true ?_ ⟨Nat.zero_le _, levelwise_nil topic⟩
    cases topic <;> rfl
  | cons f beginning ih =>
    rw [List.mem_cons, not_or] at h
    cases topic with
    | nil => simp [matchLevels_nil_iff]
    | cons l topic =>
      rw [List.cons_append, matchLevels_cons (Ne.symm h.1), ih h.2, levelwise_cons,
        List.length_cons, List.length_cons, Nat.add_le_add_iff_right]
      exact and_left_comm

/-- In a valid filter a `#` is the last level and the only one. -/
theorem exists_concat_of_mem {filter : List Level} (hlast : multiOnlyLast filter = true)
    (h : .multi ∈ filter) : ∃ beginning, filter = beginning ++ [.multi] ∧ .multi ∉ beginning := by
  induction filter with
  | nil => cases h
  | cons f filter ih =>
    by_cases hf : f = .multi
    · subst hf
      obtain rfl := eq_nil_of_multiOnlyLast hlast
      exact ⟨[], rfl, List.not_mem_nil⟩
    · have hrest : .multi ∈ filter := (List.mem_cons.1 h).resolve_left (Ne.symm hf)
      obtain ⟨beginning, rfl, hnone⟩ := ih (multiOnlyLast_tail hlast) hrest
      refine ⟨f :: beginning, rfl, ?_⟩
      rw [List.mem_cons, not_or]
      exact ⟨Ne.symm hf, hnone⟩

/-- A valid filter matches a topic in one of two ways. Either it has no `#`, has as many levels as
the topic and covers each of them; or it ends with `#`, and what stands before the `#` is not longer
than the topic and covers its beginning. -/
theorem accepts_iff_levelwise {filter : Topic} (hvalid : filter.isValid = true) (topic : Topic) :
    filter.accepts topic = true ↔
      (.multi ∉ filter.levels ∧ filter.levels.length = topic.levels.length ∧
        Levelwise filter.levels topic.levels) ∨
      ∃ beginning, filter.levels = beginning ++ [.multi] ∧
        beginning.length ≤ topic.levels.length ∧ Levelwise beginning topic.levels := by
  unfold accepts
  by_cases hmem : .multi ∈ filter.levels
  · obtain ⟨beginning, heq, hnone⟩ := exists_concat_of_mem (multiOnlyLast_of_isValid hvalid) hmem
    rw [heq, matchLevels_concat_multi hnone]
    constructor
    · intro h
      exact .inr ⟨beginning, rfl, h⟩
    · intro h
      rcases h with ⟨hnot, -⟩ | ⟨other, hother, h⟩
      · exact absurd (List.mem_append_right beginning (List.mem_singleton_self _)) hnot
      · obtain rfl := List.append_cancel_right hother
        exact h
  · rw [matchLevels_of_notMem hmem]
    constructor
    · intro h
      exact .inl ⟨hmem, h⟩
    · intro h
      rcases h with ⟨-, h⟩ | ⟨beginning, heq, -⟩
      · exact h
      · rw [heq] at hmem
        exact absurd (List.mem_append_right beginning (List.mem_singleton_self _)) hmem

/-- A `#` at the end also matches where nothing is left, after a `+` that stands for a blank
level. -/
theorem accepts_blank_levelwise :
    (⟨[.normal "sport", .single, .multi]⟩ : Topic).isValid = true ∧
      (⟨[.normal "sport", .single, .multi]⟩ : Topic).accepts ⟨[.normal "sport", .blank]⟩ = true := by
  have hvalid : (⟨[.normal "sport", .single, .multi]⟩ : Topic).isValid = true := by decide
  have hcovers : Levelwise [.normal "sport", .single] [.normal "sport", .blank] := by
    rw [levelwise_cons, levelwise_cons]
    exact ⟨.inr rfl, .inl rfl, levelwise_nil []⟩
  refine ⟨hvalid, (accepts_iff_levelwise hvalid ⟨[.normal "sport", .blank]⟩).2 (.inr ?_)⟩
  exact ⟨[.normal "sport", .single], rfl, Nat.le_refl 2, hcovers⟩

end Topic

end Geocast
