import Geocast.Proofs.Plane.Touching

/-!
# How often a ring runs around a point

The winding number is a sum over the edges of a ring. Right of the ring, above it and below it no
edge adds anything. Left of it an edge adds one for ending above the point and takes one off for
starting there, and every corner is the start of one edge and the end of another. So a ring runs
around a point only between its corners, whether it crosses itself or not.

* `map_source_edges`, `map_target_edges`: every corner starts one edge and ends one.
* `winding_of_steps`: the sum of differences between the ends of edges vanishes.
* `spans_of_contains`: a point in the region of a ring lies between its corners.
* `contains_corner`, `onBorder_iff`: corners are in the region, and edges are its border.
* `contains_ring`: the region of the ring around a box is the box.
-/
namespace Geocast.Plane

namespace Ring

/-! ## Corners and edges -/

theorem map_source_edges (r : Ring) : (edges r).map Edge.source = r := by
  cases r with
  | nil => rfl
  | cons p rest =>
    rw [edges, List.map_zipWith]
    change List.zipWith (fun x _ => x) (p :: rest) (rest ++ [p]) = p :: rest
    rw [← List.map_uncurry_zip_eq_zipWith]
    exact List.map_fst_zip (by simp)

theorem map_target_edges (p : Point) (rest : Ring) :
    (edges (p :: rest)).map Edge.target = rest ++ [p] := by
  rw [edges, List.map_zipWith]
  change List.zipWith (fun _ y => y) (p :: rest) (rest ++ [p]) = rest ++ [p]
  rw [← List.map_uncurry_zip_eq_zipWith]
  exact List.map_snd_zip (by simp)

theorem source_mem {r : Ring} {e : Edge} (h : e ∈ edges r) : e.source ∈ r := by
  rw [← map_source_edges r]
  exact List.mem_map_of_mem h

theorem target_mem {r : Ring} {e : Edge} (h : e ∈ edges r) : e.target ∈ r := by
  cases r with
  | nil => cases h
  | cons p rest =>
    have hmem : e.target ∈ (edges (p :: rest)).map Edge.target := List.mem_map_of_mem h
    rw [map_target_edges] at hmem
    simpa [or_comm] using hmem

theorem exists_source {r : Ring} {v : Point} (h : v ∈ r) : ∃ e ∈ edges r, e.source = v := by
  rw [← map_source_edges r] at h
  exact List.mem_map.1 h

theorem exists_target {r : Ring} {v : Point} (h : v ∈ r) : ∃ e ∈ edges r, e.target = v := by
  cases r with
  | nil => cases h
  | cons p rest =>
    apply List.mem_map.1
    rw [map_target_edges]
    simpa [or_comm] using h

/-! ## The sum -/

theorem winding_eq_sum (r : Ring) (p : Point) :
    winding r p = ((edges r).map (·.crossing p)).sum := by
  rw [winding, List.sum_eq_foldr, List.foldr_map]

theorem sum_steps (f : Point → Int) (es : List Edge) :
    (es.map fun e => f e.target - f e.source).sum =
      ((es.map Edge.target).map f).sum - ((es.map Edge.source).map f).sum := by
  induction es with
  | nil => rfl
  | cons e es ih =>
    simp only [List.map_cons, List.sum_cons, ih]
    omega

theorem sum_steps_edges (f : Point → Int) (r : Ring) :
    ((edges r).map fun e => f e.target - f e.source).sum = 0 := by
  rw [sum_steps]
  cases r with
  | nil => rfl
  | cons q rest =>
    rw [map_target_edges, map_source_edges, List.map_append, List.sum_append]
    simp only [List.map_cons, List.map_nil, List.sum_cons, List.sum_nil]
    omega

theorem winding_of_steps {r : Ring} {p : Point} (f : Point → Int)
    (h : ∀ e ∈ edges r, e.crossing p = f e.target - f e.source) : winding r p = 0 := by
  rw [winding_eq_sum, List.map_congr_left h, sum_steps_edges]

end Ring

/-! ## Edges on one side of a point -/

namespace Edge

theorem crossing_of_above {e : Edge} {p : Point} (hs : p.y < e.source.y) (ht : p.y < e.target.y) :
    e.crossing p = 0 := by
  rw [crossing, if_neg (by omega), if_neg (by simp; omega)]

theorem crossing_of_below {e : Edge} {p : Point} (hs : e.source.y < p.y) (ht : e.target.y < p.y) :
    e.crossing p = 0 := by
  rw [crossing, if_pos (by omega), if_neg (by simp; omega)]

/-- An edge that runs upwards on the left of a point has the point on its right. -/
theorem area_neg_of_upward {a b p : Point} (hax : a.x < p.x) (hbx : b.x < p.x) (hay : a.y ≤ p.y)
    (hby : p.y < b.y) : area a b p < 0 := by
  rw [area_eq]
  nlinarith

theorem area_pos_of_upward {a b p : Point} (hax : p.x < a.x) (hbx : p.x < b.x) (hay : a.y ≤ p.y)
    (hby : p.y < b.y) : 0 < area a b p := by
  rw [area_eq]
  nlinarith

/-- One for a corner above a point. -/
def above (p v : Point) : Int := if p.y < v.y then 1 else 0

/-- Where sides are exact, areas decide what an edge adds. -/
theorem crossing_eq {points : List Point} (hexact : Exact points) {e : Edge} {p : Point}
    (hs : e.source ∈ points) (ht : e.target ∈ points) (hp : p ∈ points) : e.crossing p =
      if e.source.y ≤ p.y then
        if p.y < e.target.y ∧ 0 < area e.source e.target p then 1 else 0
      else if e.target.y ≤ p.y ∧ area e.source e.target p < 0 then -1 else 0 := by
  simp only [crossing, Bool.and_eq_true, decide_eq_true_eq, hexact.turn_pos hs ht hp,
    hexact.turn_neg hs ht hp]

theorem crossing_of_left {points : List Point} (hexact : Exact points) {e : Edge} {p : Point}
    (hs : e.source ∈ points) (ht : e.target ∈ points) (hp : p ∈ points)
    (hsx : e.source.x < p.x) (htx : e.target.x < p.x) : e.crossing p = 0 := by
  rw [crossing_eq hexact hs ht hp]
  split_ifs with hsource hup hdown
  · have := area_neg_of_upward hsx htx hsource hup.1
    omega
  · rfl
  · have := area_neg_of_upward htx hsx hdown.1 (by omega)
    rw [area_swap] at this
    omega
  · rfl

/-- An edge on the right of a point adds one for ending above it and takes one off for starting
there. -/
theorem crossing_of_right {points : List Point} (hexact : Exact points) {e : Edge} {p : Point}
    (hs : e.source ∈ points) (ht : e.target ∈ points) (hp : p ∈ points)
    (hsx : p.x < e.source.x) (htx : p.x < e.target.x) :
    e.crossing p = above p e.target - above p e.source := by
  rw [crossing_eq hexact hs ht hp, above, above]
  by_cases hsource : e.source.y ≤ p.y <;> by_cases htarget : e.target.y ≤ p.y
  · rw [if_pos hsource, if_neg (by omega), if_neg (by omega), if_neg (by omega)]
    omega
  · have := area_pos_of_upward hsx htx hsource (by omega)
    rw [if_pos hsource, if_pos (by omega), if_pos (by omega), if_neg (by omega)]
    omega
  · have := area_pos_of_upward htx hsx htarget (by omega)
    rw [area_swap] at this
    rw [if_neg hsource, if_pos (by omega), if_neg (by omega), if_pos (by omega)]
    omega
  · rw [if_neg hsource, if_neg (by omega), if_pos (by omega), if_pos (by omega)]
    omega

end Edge

namespace Ring

/-! ## Between the corners -/

/-- Some corner of a ring is not right of a point, some not left of it, some not above it and some
not below. -/
structure Spans (r : Ring) (p : Point) : Prop where
  left : ∃ v ∈ r, v.x ≤ p.x
  right : ∃ v ∈ r, p.x ≤ v.x
  below : ∃ v ∈ r, v.y ≤ p.y
  above : ∃ v ∈ r, p.y ≤ v.y

theorem Spans.box_contains {r : Ring} {p : Point} (h : r.Spans p) {b : Box}
    (hb : ∀ v ∈ r, b.contains v = true) : b.contains p = true := by
  obtain ⟨⟨v₁, hv₁, h₁⟩, ⟨v₂, hv₂, h₂⟩, ⟨v₃, hv₃, h₃⟩, ⟨v₄, hv₄, h₄⟩⟩ := h
  have hc := fun v hv => Box.contains_iff.1 (hb v hv)
  exact Box.contains_iff.2 ⟨⟨(hc v₁ hv₁).1.1.trans h₁, h₂.trans (hc v₂ hv₂).1.2⟩,
    (hc v₃ hv₃).2.1.trans h₃, h₄.trans (hc v₄ hv₄).2.2⟩

/-- A ring runs only around points between its corners. -/
theorem spans_of_winding {r : Ring} {p : Point} (hexact : Exact (p :: r)) (h : winding r p ≠ 0) :
    r.Spans p := by
  have hmem : ∀ v ∈ r, v ∈ p :: r := fun v hv => List.mem_cons_of_mem p hv
  have hp : p ∈ p :: r := List.mem_cons_self
  constructor
  · by_contra hnone
    push Not at hnone
    refine h (winding_of_steps (Edge.above p) fun e he => ?_)
    exact Edge.crossing_of_right hexact (hmem _ (source_mem he)) (hmem _ (target_mem he)) hp
      (hnone _ (source_mem he)) (hnone _ (target_mem he))
  · by_contra hnone
    push Not at hnone
    refine h (winding_of_steps (fun _ => 0) fun e he => ?_)
    exact Edge.crossing_of_left hexact (hmem _ (source_mem he)) (hmem _ (target_mem he)) hp
      (hnone _ (source_mem he)) (hnone _ (target_mem he))
  · by_contra hnone
    push Not at hnone
    refine h (winding_of_steps (fun _ => 0) fun e he => ?_)
    exact Edge.crossing_of_above (hnone _ (source_mem he)) (hnone _ (target_mem he))
  · by_contra hnone
    push Not at hnone
    refine h (winding_of_steps (fun _ => 0) fun e he => ?_)
    exact Edge.crossing_of_below (hnone _ (source_mem he)) (hnone _ (target_mem he))

theorem spans_of_edge {r : Ring} {e : Edge} {p : Point} (he : e ∈ edges r)
    (h : e.box.contains p = true) : r.Spans p := by
  obtain ⟨⟨hxlo, hxhi⟩, hylo, hyhi⟩ := Box.contains_iff.1 h
  have hs := source_mem he
  have ht := target_mem he
  exact ⟨(min_le_iff.1 hxlo).elim (⟨_, hs, ·⟩) (⟨_, ht, ·⟩),
    (le_max_iff.1 hxhi).elim (⟨_, hs, ·⟩) (⟨_, ht, ·⟩),
    (min_le_iff.1 hylo).elim (⟨_, hs, ·⟩) (⟨_, ht, ·⟩),
    (le_max_iff.1 hyhi).elim (⟨_, hs, ·⟩) (⟨_, ht, ·⟩)⟩

theorem spans_of_contains {r : Ring} {p : Point} (hexact : Exact (p :: r))
    (h : contains r p = true) : r.Spans p := by
  rw [contains, Bool.or_eq_true, bne_iff_ne] at h
  rcases h with hborder | hwinding
  · obtain ⟨e, he, hborders⟩ := List.any_eq_true.1 hborder
    rw [Edge.borders, Edge.contains, Bool.and_eq_true, Bool.and_eq_true] at hborders
    exact spans_of_edge he hborders.2.1
  · exact spans_of_winding hexact hwinding

/-! ## The border -/

end Ring

namespace Edge

theorem borders_target {e : Edge} (h : turn e.source e.target e.target = 0) :
    e.borders e.target = true := by
  have hbox : e.box.contains e.target = true := Box.contains_iff.2
    ⟨⟨min_le_right _ _, le_max_right _ _⟩, min_le_right _ _, le_max_right _ _⟩
  simp [borders, contains, side, h, hbox]

theorem eq_source_of_passes {e : Edge} {p : Point} (h : e.Passes p) (hs : e.source.y = p.y)
    (ht : e.target.y < p.y) : p = e.source := by
  obtain ⟨t, -, heq⟩ := h
  obtain ⟨hx, hy⟩ := Prod.mk.inj heq
  have hd : (e.target.y - e.source.y : ℚ) ≠ 0 := by
    rw [hs, sub_ne_zero]
    exact_mod_cast ht.ne
  have hzero : t = 0 := by
    rw [hs] at hy hd
    exact (mul_eq_zero.1 (by linarith)).resolve_right hd
  rw [hzero, zero_mul, add_zero] at hx
  have hx' : e.source.x = p.x := by exact_mod_cast hx
  exact Point.ext hx'.symm hs.symm

end Edge

namespace Ring

theorem onBorder_of_target {r : Ring} {e : Edge} (he : e ∈ edges r)
    (h : turn e.source e.target e.target = 0) : onBorder r e.target = true :=
  List.any_eq_true.2 ⟨e, he, Edge.borders_target h⟩

/-- Every corner on the map is in the region of its ring. -/
theorem contains_corner {r : Ring} (hmap : ∀ v ∈ r, v.OnMap) {v : Point} (hv : v ∈ r) :
    contains r v = true := by
  obtain ⟨e, he, rfl⟩ := exists_target hv
  rw [contains, onBorder_of_target he (turn_target (hmap _ (source_mem he)) (hmap _ hv)),
    Bool.true_or]

/-- Where sides are exact, the border of a ring is where its edges pass. -/
theorem onBorder_iff {r : Ring} {p : Point} (hexact : Exact (p :: r)) :
    onBorder r p = true ↔ ∃ e ∈ edges r, e.Passes p := by
  have hmem : ∀ v ∈ r, v ∈ p :: r := fun v hv => List.mem_cons_of_mem p hv
  have hpasses : ∀ e ∈ edges r, (e.contains p = true ↔ e.Passes p) := fun e he =>
    Edge.contains_iff_passes hexact (hmem _ (source_mem he)) (hmem _ (target_mem he))
      List.mem_cons_self
  constructor
  · intro h
    obtain ⟨e, he, hborders⟩ := List.any_eq_true.1 h
    rw [Edge.borders, Bool.and_eq_true] at hborders
    exact ⟨e, he, (hpasses e he).1 hborders.2⟩
  · intro ⟨e, he, h⟩
    by_cases hupper : e.source.y = p.y ∧ e.target.y < p.y
    · -- The edge before this one ends in the point.
      rw [Edge.eq_source_of_passes h hupper.1 hupper.2]
      obtain ⟨f, hf, hsource⟩ := exists_target (source_mem he)
      rw [← hsource]
      refine onBorder_of_target hf (Int.sign_eq_zero_iff_zero.1 ?_)
      rw [hexact _ (hmem _ (source_mem hf)) _ (hmem _ (target_mem hf)) _ (hmem _ (target_mem hf)),
        area_target, Int.sign_zero]
    · refine List.any_eq_true.2 ⟨e, he, ?_⟩
      rw [Edge.borders, (hpasses e he).2 h, Bool.and_true, Bool.not_eq_true', Bool.and_eq_false_iff,
        decide_eq_false_iff_not, decide_eq_false_iff_not]
      exact not_and_or.1 hupper

/-- Where sides are exact, the region of a ring is its border and what it runs around. -/
theorem contains_iff {r : Ring} {p : Point} (hexact : Exact (p :: r)) :
    contains r p = true ↔ (∃ e ∈ edges r, e.Passes p) ∨ winding r p ≠ 0 := by
  rw [contains, Bool.or_eq_true, onBorder_iff hexact, bne_iff_ne]

end Ring

/-! ## The ring around a box -/

/-- The corners of a box, counterclockwise. -/
def Box.ring (b : Box) : Ring := [b.lo, ⟨b.hi.x, b.lo.y⟩, b.hi, ⟨b.lo.x, b.hi.y⟩]

namespace Ring

theorem box_contains_ring {b : Box} (hx : b.lo.x ≤ b.hi.x) (hy : b.lo.y ≤ b.hi.y) :
    ∀ v ∈ b.ring, b.contains v = true := by
  simp [Box.ring, Box.contains_iff, hx, hy]

theorem winding_ring {b : Box} {p : Point} (hexact : Exact (p :: b.ring)) (hxlo : b.lo.x < p.x)
    (hxhi : p.x < b.hi.x) (hylo : b.lo.y < p.y) (hyhi : p.y < b.hi.y) : winding b.ring p = 1 := by
  have hmem : ∀ v ∈ b.ring, v ∈ p :: b.ring := fun v hv => List.mem_cons_of_mem p hv
  have hp : p ∈ p :: b.ring := List.mem_cons_self
  have hbottom : (Edge.mk b.lo ⟨b.hi.x, b.lo.y⟩).crossing p = 0 := Edge.crossing_of_below hylo hylo
  have htop : (Edge.mk b.hi ⟨b.lo.x, b.hi.y⟩).crossing p = 0 := Edge.crossing_of_above hyhi hyhi
  have hleft : (Edge.mk ⟨b.lo.x, b.hi.y⟩ b.lo).crossing p = 0 :=
    Edge.crossing_of_left hexact (hmem _ (by simp [Box.ring])) (hmem _ (by simp [Box.ring])) hp
      hxlo hxlo
  have hright : (Edge.mk ⟨b.hi.x, b.lo.y⟩ b.hi).crossing p = 1 := by
    rw [Edge.crossing_of_right hexact (hmem _ (by simp [Box.ring])) (hmem _ (by simp [Box.ring])) hp
      hxhi hxhi, Edge.above, Edge.above, if_pos hyhi, if_neg (Int.not_lt.2 hylo.le), Int.sub_zero]
  rw [winding_eq_sum]
  change [_, _, _, _].sum = 1
  dsimp only
  rw [hbottom, hright, htop, hleft]
  rfl

/-- The region of the ring around a box is the box, its border included. -/
theorem contains_ring {b : Box} (hx : b.lo.x ≤ b.hi.x) (hy : b.lo.y ≤ b.hi.y) {p : Point}
    (hexact : Exact (p :: b.ring)) : contains b.ring p = b.contains p := by
  rw [Bool.eq_iff_iff]
  refine ⟨fun h => (spans_of_contains hexact h).box_contains (box_contains_ring hx hy), fun h => ?_⟩
  obtain ⟨⟨hxlo, hxhi⟩, hylo, hyhi⟩ := Box.contains_iff.1 h
  have honEdge : ∀ e ∈ edges b.ring, e.box.contains p = true → area e.source e.target p = 0 →
      contains b.ring p = true := fun e he hbox harea =>
    (contains_iff hexact).2 (.inl ⟨e, he, Edge.passes_iff.2 ⟨hbox, harea⟩⟩)
  by_cases hbottom : p.y = b.lo.y
  · refine honEdge ⟨b.lo, ⟨b.hi.x, b.lo.y⟩⟩ (by simp [Box.ring, edges]) ?_ ?_
    · exact Box.contains_iff.2 (by simp [Edge.box, Box.span]; omega)
    · simp [area, hbottom]
  by_cases htop : p.y = b.hi.y
  · refine honEdge ⟨b.hi, ⟨b.lo.x, b.hi.y⟩⟩ (by simp [Box.ring, edges]) ?_ ?_
    · exact Box.contains_iff.2 (by simp [Edge.box, Box.span]; omega)
    · simp [area, htop]
  by_cases hright : p.x = b.hi.x
  · refine honEdge ⟨⟨b.hi.x, b.lo.y⟩, b.hi⟩ (by simp [Box.ring, edges]) ?_ ?_
    · exact Box.contains_iff.2 (by simp [Edge.box, Box.span]; omega)
    · simp [area, hright]
  by_cases hleft : p.x = b.lo.x
  · refine honEdge ⟨⟨b.lo.x, b.hi.y⟩, b.lo⟩ (by simp [Box.ring, edges]) ?_ ?_
    · exact Box.contains_iff.2 (by simp [Edge.box, Box.span]; omega)
    · simp [area, hleft]
  refine (contains_iff hexact).2 (.inr ?_)
  rw [winding_ring hexact (by omega) (by omega) (by omega) (by omega)]
  exact Int.one_ne_zero

end Ring

end Geocast.Plane
