import Geocast.Proofs.Plane.Ways

/-!
# The same line from another corner, or backwards

A ring that starts at another corner has the same edges from there on, so nothing about a point
changes. A ring that runs backwards has every edge backwards; each of them has the same points and
adds the opposite to the winding number, as far as sides are told exactly. An edge without length at
the end of a ring adds nothing.

* `edges_rotate`, `perm_edges_reverse`: the edges of a ring from another corner and backwards.
* `contains_of_isRotated`: a region does not depend on the corner the ring starts from.
* `contains_reverse`: nor on the direction, where sides are exact.
* `contains_closed`: nor on a repetition of the first corner at the end.
-/
namespace Geocast.Plane

/-- An edge in the other direction. -/
def Edge.back (e : Edge) : Edge := ⟨e.target, e.source⟩

namespace Edge

theorem passes_back {e : Edge} {p : Point} : e.back.Passes p ↔ e.Passes p := by
  have hback : ∀ {f : Edge}, f.Passes p → f.back.Passes p := by
    intro f ⟨t, ⟨h0, h1⟩, h⟩
    refine ⟨1 - t, ⟨by linarith, by linarith⟩, Eq.trans ?_ h⟩
    refine Prod.ext ?_ ?_
    · dsimp only [pointAt, back]
      ring
    · dsimp only [pointAt, back]
      ring
  exact ⟨hback, hback⟩

theorem crossing_degenerate (v p : Point) : (Edge.mk v v).crossing p = 0 := by
  unfold crossing
  by_cases h : v.y ≤ p.y
  · simp [h, h.not_gt]
  · simp [h]

theorem eq_of_borders_degenerate {v p : Point} (h : (Edge.mk v v).borders p = true) : p = v := by
  rw [borders, contains, Bool.and_eq_true, Bool.and_eq_true] at h
  obtain ⟨⟨hxlo, hxhi⟩, hylo, hyhi⟩ := Box.contains_iff.1 h.2.1
  dsimp only [box, Box.span] at hxlo hxhi hylo hyhi
  exact Point.ext (by omega) (by omega)

end Edge

namespace Ring

/-! ## From another corner -/

/-- The edges of a ring lead from each corner to the next one around. -/
theorem edges_eq (r : Ring) : edges r = List.zipWith Edge.mk r (r.rotate 1) := by
  cases r with
  | nil => rfl
  | cons p rest => rw [edges, List.rotate_cons_succ, List.rotate_zero]

theorem edges_rotate (r : Ring) (n : Nat) : edges (r.rotate n) = (edges r).rotate n := by
  rw [edges_eq, edges_eq, List.zipWith_rotate_distrib _ _ _ _ (List.length_rotate r 1).symm,
    List.rotate_rotate, List.rotate_rotate, Nat.add_comm]

theorem perm_edges_of_isRotated {r s : Ring} (h : List.IsRotated s r) :
    (edges s).Perm (edges r) := by
  obtain ⟨n, rfl⟩ := h
  rw [edges_rotate]
  exact (List.rotate_perm _ n).symm

theorem winding_of_perm {r s : Ring} (h : (edges s).Perm (edges r)) (p : Point) :
    winding s p = winding r p := by
  rw [winding_eq_sum, winding_eq_sum]
  exact (h.map _).sum_eq

/-- The region of a ring does not depend on the corner that the ring starts from. -/
theorem contains_of_isRotated {r s : Ring} (h : List.IsRotated s r) (p : Point) :
    contains s p = contains r p := by
  have hperm := perm_edges_of_isRotated h
  rw [contains, contains, winding_of_perm hperm, onBorder, onBorder, hperm.any_eq]

/-! ## Backwards -/

theorem rotate_reverse_rotate (r : Ring) : (r.rotate 1).reverse.rotate 1 = r.reverse := by
  cases r with
  | nil => rfl
  | cons v rest => simp [List.rotate_cons_succ]

theorem perm_edges_reverse (r : Ring) : (edges r.reverse).Perm ((edges r).map Edge.back) := by
  have hback : (edges r).map Edge.back = List.zipWith Edge.mk (r.rotate 1) r := by
    rw [edges_eq, List.map_zipWith, List.zipWith_comm]
    rfl
  have hreverse : ((edges r).map Edge.back).reverse.rotate 1 = edges r.reverse := by
    have hlength := List.length_rotate r 1
    rw [hback, List.reverse_zipWith hlength, List.zipWith_rotate_distrib _ _ _ _ (by simp),
      rotate_reverse_rotate, ← edges_eq]
  rw [← hreverse]
  exact (List.rotate_perm _ 1).trans (List.reverse_perm _)

theorem mem_edges_reverse {r : Ring} {e : Edge} :
    e ∈ edges r.reverse ↔ ∃ f ∈ edges r, f.back = e := by
  rw [(perm_edges_reverse r).mem_iff, List.mem_map]

/-- A ring that runs backwards runs the opposite number of times around a spot. -/
theorem rounds_reverse (r : Ring) (q : Spot) : rounds r.reverse q = -rounds r q := by
  rw [rounds, rounds, ((perm_edges_reverse r).map _).sum_eq, List.map_map, List.sum_neg,
    List.map_map]
  congr 1
  exact List.map_congr_left fun e _ => Way.passage_back e.way q

theorem contains_reverse {r : Ring} {p : Point} (hexact : Exact (p :: r)) :
    contains r.reverse p = contains r p := by
  have hexact' : Exact (p :: r.reverse) := hexact.mono fun v hv => by simpa using hv
  rw [Bool.eq_iff_iff, contains_iff_rounds hexact, contains_iff_rounds hexact', rounds_reverse,
    neg_ne_zero]
  refine or_congr_left ⟨fun ⟨e, he, h⟩ => ?_, fun ⟨e, he, h⟩ => ?_⟩
  · obtain ⟨f, hf, rfl⟩ := mem_edges_reverse.1 he
    exact ⟨f, hf, Edge.passes_back.1 h⟩
  · exact ⟨e.back, mem_edges_reverse.2 ⟨e, he, rfl⟩, Edge.passes_back.2 h⟩

/-! ## Closed rings -/

theorem edges_closed (v : Point) (rest : Ring) :
    edges (v :: rest ++ [v]) = edges (v :: rest) ++ [⟨v, v⟩] := by
  change List.zipWith Edge.mk (v :: rest ++ [v]) (rest ++ [v] ++ [v]) = _
  rw [List.zipWith_append (by simp)]
  rfl

theorem contains_closed {v : Point} {rest : Ring} (hmap : ∀ w ∈ v :: rest, w.OnMap) (p : Point) :
    contains (v :: rest ++ [v]) p = contains (v :: rest) p := by
  have hwinding : winding (v :: rest ++ [v]) p = winding (v :: rest) p := by
    rw [winding_eq_sum, winding_eq_sum, edges_closed, List.map_append, List.sum_append]
    simp [Edge.crossing_degenerate]
  have hborder : onBorder (v :: rest ++ [v]) p =
      (onBorder (v :: rest) p || (Edge.mk v v).borders p) := by
    rw [onBorder, onBorder, edges_closed, List.any_append]
    simp
  by_cases h : (Edge.mk v v).borders p = true
  · have hcorner := contains_corner hmap (v := p)
      (by rw [Edge.eq_of_borders_degenerate h]; exact List.mem_cons_self)
    rw [hcorner, contains, hborder, h, Bool.or_true, Bool.true_or]
  · rw [contains, contains, hwinding, hborder, Bool.eq_false_iff.2 h, Bool.or_false]

end Ring

end Geocast.Plane
