import Geocast.Proofs.Plane.Winding

/-!
# Rings whose regions meet

`Ring.intersects` looks at boxes first, at the edges that are near, and at corners. The looks at
boxes spare work only: where sides are exact, it decides whether edges of the rings have a point in
common or a corner of one ring is in the region of the other.

* `box_contains_of_mem`: the box of a ring contains its corners.
* `Overlaps`: rings that neither coordinate tells apart; so are the rings with a place in common.
* `reaches_iff`, `intersects_iff`: the region of a ring and an edge, and two regions.
-/
namespace Geocast.Plane

namespace Box

theorem insert_contains {b : Box} {p v : Point} (h : b.contains v = true ∨ v = p) :
    (b.insert p).contains v = true := by
  rw [contains_iff] at h
  rw [contains_iff]
  dsimp only [insert]
  rcases h with h | rfl <;> omega

theorem contains_foldl_insert (ps : List Point) {b : Box} {v : Point}
    (h : b.contains v = true ∨ v ∈ ps) : (ps.foldl insert b).contains v = true := by
  induction ps generalizing b with
  | nil => exact h.resolve_right List.not_mem_nil
  | cons p ps ih =>
    rw [List.foldl_cons]
    rw [List.mem_cons, ← or_assoc] at h
    exact ih (h.imp_left insert_contains)

end Box

namespace Ring

theorem box_contains_of_mem {r : Ring} {b : Box} (h : box? r = some b) {v : Point} (hv : v ∈ r) :
    b.contains v = true := by
  cases r with
  | nil => cases hv
  | cons p rest =>
    rw [box?, Option.some.injEq] at h
    rw [← h]
    refine Box.contains_foldl_insert rest ((List.mem_cons.1 hv).imp_left fun heq => ?_)
    rw [heq, Box.contains_iff]
    simp [Box.span]

theorem exists_box {r : Ring} {v : Point} (h : v ∈ r) : ∃ b, box? r = some b := by
  cases r with
  | nil => cases h
  | cons p rest => exact ⟨_, rfl⟩

/-! ## Rings that nothing tells apart -/

/-- Some corner of a ring is not right of some corner of another, and likewise for the other three
directions. -/
structure Overlaps (r s : Ring) : Prop where
  left : ∃ v ∈ r, ∃ w ∈ s, v.x ≤ w.x
  right : ∃ v ∈ r, ∃ w ∈ s, w.x ≤ v.x
  below : ∃ v ∈ r, ∃ w ∈ s, v.y ≤ w.y
  above : ∃ v ∈ r, ∃ w ∈ s, w.y ≤ v.y

theorem Overlaps.symm {r s : Ring} (h : r.Overlaps s) : s.Overlaps r := by
  have hswap : ∀ {P : Point → Point → Prop}, (∃ v ∈ r, ∃ w ∈ s, P v w) → ∃ w ∈ s, ∃ v ∈ r, P v w :=
    fun ⟨v, hv, w, hw, hp⟩ => ⟨w, hw, v, hv, hp⟩
  exact ⟨hswap h.right, hswap h.left, hswap h.above, hswap h.below⟩

theorem overlaps_of_spans {r s : Ring} {w : Point} (hw : w ∈ s) (h : r.Spans w) :
    r.Overlaps s := by
  have hpair : ∀ {P : Point → Prop}, (∃ v ∈ r, P v) → ∃ v ∈ r, ∃ _ ∈ s, P v :=
    fun ⟨v, hv, hp⟩ => ⟨v, hv, w, hw, hp⟩
  obtain ⟨⟨a, ha, hax⟩, ⟨b, hb, hbx⟩, ⟨c, hc, hcy⟩, ⟨d, hd, hdy⟩⟩ := h
  exact ⟨⟨a, ha, w, hw, hax⟩, ⟨b, hb, w, hw, hbx⟩, ⟨c, hc, w, hw, hcy⟩, ⟨d, hd, w, hw, hdy⟩⟩

theorem Overlaps.box_meets {r s : Ring} (h : r.Overlaps s) {b c : Box}
    (hb : ∀ v ∈ r, b.contains v = true) (hc : ∀ w ∈ s, c.contains w = true) :
    b.meets c = true := by
  obtain ⟨⟨v₁, hv₁, w₁, hw₁, h₁⟩, ⟨v₂, hv₂, w₂, hw₂, h₂⟩, ⟨v₃, hv₃, w₃, hw₃, h₃⟩,
    ⟨v₄, hv₄, w₄, hw₄, h₄⟩⟩ := h
  have hr := fun v hv => Box.contains_iff.1 (hb v hv)
  have hs := fun w hw => Box.contains_iff.1 (hc w hw)
  exact Box.meets_iff.2 ⟨⟨(hr v₁ hv₁).1.1.trans (h₁.trans (hs w₁ hw₁).1.2),
    (hs w₂ hw₂).1.1.trans (h₂.trans (hr v₂ hv₂).1.2)⟩,
    (hr v₃ hv₃).2.1.trans (h₃.trans (hs w₃ hw₃).2.2),
    (hs w₄ hw₄).2.1.trans (h₄.trans (hr v₄ hv₄).2.2)⟩

/-- Of the ends of two edges, one of the first has a coordinate up to that of one of the second
where the ranges of that coordinate allow it. -/
theorem exists_le_of_min_le_max {r s : Ring} {e f : Edge} (he : e ∈ edges r) (hf : f ∈ edges s)
    (coordinate : Point → Int) (h : min (coordinate e.source) (coordinate e.target) ≤
      max (coordinate f.source) (coordinate f.target)) :
    ∃ v ∈ r, ∃ w ∈ s, coordinate v ≤ coordinate w := by
  rcases min_le_iff.1 h with h | h <;> rcases le_max_iff.1 h with h | h
  · exact ⟨_, source_mem he, _, source_mem hf, h⟩
  · exact ⟨_, source_mem he, _, target_mem hf, h⟩
  · exact ⟨_, target_mem he, _, source_mem hf, h⟩
  · exact ⟨_, target_mem he, _, target_mem hf, h⟩

theorem overlaps_of_meets {r s : Ring} {e f : Edge} (he : e ∈ edges r) (hf : f ∈ edges s)
    (h : e.Meets f) : r.Overlaps s := by
  obtain ⟨⟨hleft, hright⟩, hbelow, habove⟩ := Box.meets_iff.1 (Edge.box_meets_of_meets h)
  have hswap : ∀ {P : Point → Point → Prop}, (∃ w ∈ s, ∃ v ∈ r, P v w) → ∃ v ∈ r, ∃ w ∈ s, P v w :=
    fun ⟨w, hw, v, hv, hp⟩ => ⟨v, hv, w, hw, hp⟩
  exact ⟨exists_le_of_min_le_max he hf Point.x hleft,
    hswap (exists_le_of_min_le_max hf he Point.x hright),
    exists_le_of_min_le_max he hf Point.y hbelow,
    hswap (exists_le_of_min_le_max hf he Point.y habove)⟩

/-! ## What the tests find out -/

theorem near_of_meets {r : Ring} {e f : Edge} (he : e ∈ edges r) (h : e.Meets f) :
    r.near f.box = true := by
  obtain ⟨b, hb⟩ := exists_box (source_mem he)
  have hboxes := Box.meets_iff.1 (Edge.box_meets_of_meets h)
  have hs := Box.contains_iff.1 (box_contains_of_mem hb (source_mem he))
  have ht := Box.contains_iff.1 (box_contains_of_mem hb (target_mem he))
  rw [near, hb, Option.any_some, Box.meets_iff]
  dsimp only [Edge.box, Box.span] at hboxes ⊢
  omega

theorem reaches_iff {points : List Point} (hexact : Exact points) {r : Ring} {f : Edge}
    (hr : ∀ v ∈ r, v ∈ points) (hs : f.source ∈ points) (ht : f.target ∈ points) :
    reaches r f = true ↔
      (∃ e ∈ edges r, e.Meets f) ∨ contains r f.source = true ∨ contains r f.target = true := by
  have htouches : ∀ e ∈ edges r, (e.touches f = true ↔ e.Meets f) := fun e he =>
    Edge.touches_iff_meets hexact (hr _ (source_mem he)) (hr _ (target_mem he)) hs ht
  have hedges : (r.near f.box && (edges r).any (·.touches f)) = true ↔ ∃ e ∈ edges r, e.Meets f := by
    rw [Bool.and_eq_true, List.any_eq_true]
    constructor
    · intro ⟨_, e, he, h⟩
      exact ⟨e, he, (htouches e he).1 h⟩
    · intro ⟨e, he, h⟩
      exact ⟨near_of_meets he h, e, he, (htouches e he).2 h⟩
  rw [reaches, Bool.or_eq_true, Bool.or_eq_true, hedges, or_assoc]

theorem any_reaches_iff {points : List Point} (hexact : Exact points) {r s : Ring}
    (hr : ∀ v ∈ r, v ∈ points) (hs : ∀ v ∈ s, v ∈ points) :
    (edges s).any (reaches r) = true ↔
      (∃ e ∈ edges r, ∃ f ∈ edges s, e.Meets f) ∨ ∃ v ∈ s, contains r v = true := by
  rw [List.any_eq_true]
  constructor
  · intro ⟨f, hf, h⟩
    rw [reaches_iff hexact hr (hs _ (source_mem hf)) (hs _ (target_mem hf))] at h
    rcases h with ⟨e, he, hmeets⟩ | hsource | htarget
    · exact .inl ⟨e, he, f, hf, hmeets⟩
    · exact .inr ⟨_, source_mem hf, hsource⟩
    · exact .inr ⟨_, target_mem hf, htarget⟩
  · have hreaches : ∀ f ∈ edges s, _ := fun f hf =>
      reaches_iff hexact hr (hs _ (source_mem hf)) (hs _ (target_mem hf))
    intro h
    rcases h with ⟨e, he, f, hf, hmeets⟩ | ⟨v, hv, hcontains⟩
    · exact ⟨f, hf, (hreaches f hf).2 (.inl ⟨e, he, hmeets⟩)⟩
    · obtain ⟨f, hf, rfl⟩ := exists_source hv
      exact ⟨f, hf, (hreaches f hf).2 (.inr (.inl hcontains))⟩

/-- Rings have a place in common when edges of them meet or a corner of one is in the region of the
other. -/
def Joined (r s : Ring) : Prop :=
  (∃ e ∈ edges r, ∃ f ∈ edges s, e.Meets f) ∨ (∃ v ∈ s, contains r v = true) ∨
    ∃ v ∈ r, contains s v = true

theorem overlaps_of_joined {r s : Ring} (hexact : Exact (r ++ s)) (h : r.Joined s) :
    r.Overlaps s := by
  rcases h with ⟨e, he, f, hf, hmeets⟩ | ⟨v, hv, hcontains⟩ | ⟨v, hv, hcontains⟩
  · exact overlaps_of_meets he hf hmeets
  · refine overlaps_of_spans hv (spans_of_contains (hexact.mono ?_) hcontains)
    intro w hw
    rcases List.mem_cons.1 hw with rfl | hw
    · exact List.mem_append_right r hv
    · exact List.mem_append_left s hw
  · refine (overlaps_of_spans hv (spans_of_contains (hexact.mono ?_) hcontains)).symm
    intro w hw
    rcases List.mem_cons.1 hw with rfl | hw
    · exact List.mem_append_left s hv
    · exact List.mem_append_right r hw

/-- Where sides are exact, the test of two rings finds out whether they have a place in common. -/
theorem intersects_iff {r s : Ring} (hexact : Exact (r ++ s)) :
    intersects r s = true ↔ r.Joined s := by
  have hr : ∀ v ∈ r, v ∈ r ++ s := fun v hv => List.mem_append_left s hv
  have hs : ∀ v ∈ s, v ∈ r ++ s := fun v hv => List.mem_append_right r hv
  have hedges : ((edges s).any (reaches r) || (edges r).any (reaches s)) = true ↔ r.Joined s := by
    rw [Bool.or_eq_true, any_reaches_iff hexact hr hs, any_reaches_iff hexact hs hr, Joined]
    constructor
    · intro h
      rcases h with (h | h) | (⟨f, hf, e, he, h⟩ | h)
      · exact .inl h
      · exact .inr (.inl h)
      · exact .inl ⟨e, he, f, hf, h.symm⟩
      · exact .inr (.inr h)
    · intro h
      rcases h with h | h | h
      · exact .inl (.inl h)
      · exact .inl (.inr h)
      · exact .inr (.inr h)
  rw [intersects, Bool.and_eq_true, hedges]
  refine ⟨fun h => h.2, fun h => ⟨?_, h⟩⟩
  have hoverlaps := overlaps_of_joined hexact h
  obtain ⟨v, hv, w, hw, -⟩ := hoverlaps.left
  obtain ⟨b, hb⟩ := exists_box hv
  obtain ⟨c, hc⟩ := exists_box hw
  rw [hc, Option.any_some, near, hb, Option.any_some]
  exact hoverlaps.symm.box_meets (fun _ => box_contains_of_mem hc) fun _ => box_contains_of_mem hb

end Ring

end Geocast.Plane
