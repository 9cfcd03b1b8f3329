import Geocast.Proofs.Plane.Reach
import Geocast.Proofs.Plane.Retraced

/-!
# Rings one inside the other

Rings that do not touch run equally often around all corners of each other. When a corner of one is
in the region of the other, the whole region is: otherwise each ring would run around all corners of
the other, and the corner that is farthest to the right would have one right of it.

* `Apart`: rings whose edges do not meet.
* `rounds_corner_eq`: a ring runs equally often around all corners of a ring apart from it.
* `exists_right`: right of a spot that a ring runs around it has a corner.
* `contains_of_nested`: the region of a ring inside another one is inside of it.
-/
namespace Geocast.Plane.Ring

/-- No edges of two rings meet. -/
def Apart (r s : Ring) : Prop := ∀ e ∈ edges r, ∀ f ∈ edges s, ¬ e.Meets f

theorem Apart.symm {r s : Ring} (h : r.Apart s) : s.Apart r :=
  fun f hf e he hmeets => h e he f hf hmeets.symm

/-- What is the same at both ends of every edge is the same at all corners. -/
theorem eq_of_edges {s : Ring} (g : Point → Int) (h : ∀ f ∈ edges s, g f.target = g f.source)
    {v w : Point} (hv : v ∈ s) (hw : w ∈ s) : g v = g w := by
  have hfirst : ∀ (i : Nat) (hi : i < s.length), g s[i] = g s[0] := by
    intro i
    induction i with
    | zero => exact fun _ => rfl
    | succ i ih =>
      intro hi
      have hedge : Edge.mk s[i] s[i + 1] ∈ edges s := by
        rw [edges_eq]
        refine List.mem_iff_getElem.2 ⟨i, by simp; omega, ?_⟩
        rw [List.getElem_zipWith, List.getElem_rotate]
        simp only [Nat.mod_eq_of_lt hi]
      exact (h _ hedge).trans (ih (by omega))
  obtain ⟨i, hi, rfl⟩ := List.mem_iff_getElem.1 hv
  obtain ⟨j, hj, rfl⟩ := List.mem_iff_getElem.1 hw
  rw [hfirst i hi, hfirst j hj]

/-- A ring runs equally often around all corners of a ring apart from it. -/
theorem rounds_corner_eq {r s : Ring} (hapart : r.Apart s) {v w : Point} (hv : v ∈ s)
    (hw : w ∈ s) : r.rounds v.spot = r.rounds w.spot := by
  refine eq_of_edges (fun v => r.rounds v.spot) (fun f hf => ?_) hv hw
  have hclear : ∀ e ∈ edges r, ¬ e.Meets f := fun e he => hapart e he f hf
  have halong := rounds_along hclear (t := 0) (u := 1) ⟨le_rfl, zero_le_one⟩ ⟨zero_le_one, le_rfl⟩
  rwa [Way.spotAt_zero, Way.spotAt_one] at halong

theorem rounds_edge_ne_zero {r s : Ring} (hapart : r.Apart s) {v : Point} (hv : v ∈ s)
    (h : r.rounds v.spot ≠ 0) {f : Edge} (hf : f ∈ edges s) {t : ℚ}
    (ht : t ∈ Set.Icc (0 : ℚ) 1) : r.rounds (f.way.spotAt t) ≠ 0 := by
  have hclear : ∀ e ∈ edges r, ¬ e.Meets f := fun e he => hapart e he f hf
  rw [rounds_along hclear (t := 0) ⟨le_rfl, zero_le_one⟩ ht, Way.spotAt_zero]
  exact (rounds_corner_eq hapart (source_mem hf) hv).trans_ne h

theorem exists_right {r : Ring} {q : Spot} (h : r.rounds q ≠ 0) : ∃ v ∈ r, q.1 < (v.x : ℚ) := by
  obtain ⟨e, he, hpassage, -⟩ := exists_first h
  obtain ⟨hlt, t, ⟨h0, h1⟩, heq⟩ := Way.exists_ahead hpassage
  have hx : (e.source.x : ℚ) + t * (e.target.x - e.source.x) = e.way.ahead q :=
    congrArg Prod.fst heq
  by_contra hnone
  push Not at hnone
  have hs := hnone _ (source_mem he)
  have ht := hnone _ (target_mem he)
  nlinarith

/-- Two rings never run around all of each other's corners: the corner that is farthest to the right
would have one right of it. -/
theorem not_around_each_other {r s : Ring} {w : Point} (hw : w ∈ r)
    (hr : ∀ u ∈ s, r.rounds u.spot ≠ 0) (hs : ∀ u ∈ r, s.rounds u.spot ≠ 0) : False := by
  obtain ⟨u, hu, hmax⟩ :=
    (r ++ s).toFinset.exists_max_image Point.x ⟨w, by simp [hw]⟩
  simp only [List.mem_toFinset, List.mem_append] at hu hmax
  rcases hu with hu | hu
  · obtain ⟨u', hu', hlt⟩ := exists_right (hs u hu)
    have hle : (u'.x : ℚ) ≤ u.x := by exact_mod_cast hmax u' (.inr hu')
    exact absurd hlt hle.not_gt
  · obtain ⟨u', hu', hlt⟩ := exists_right (hr u hu)
    have hle : (u'.x : ℚ) ≤ u.x := by exact_mod_cast hmax u' (.inl hu')
    exact absurd hlt hle.not_gt

/-- Where a ring runs around the corners of a ring apart from it, it runs around every spot that the
other runs around. -/
theorem rounds_of_nested {r s : Ring} (hapart : r.Apart s) {v : Point} (hv : v ∈ s)
    (h : r.rounds v.spot ≠ 0) {q : Spot} (hq : s.rounds q ≠ 0) : r.rounds q ≠ 0 := by
  intro hzero
  obtain ⟨f, hf, hfpassage, hffirst⟩ := exists_first hq
  obtain ⟨hfx, u, hu, hfspot⟩ := Way.exists_ahead hfpassage
  have hround := rounds_edge_ne_zero hapart hv h hf hu
  rw [hfspot] at hround
  -- Between the spot and the first edge of the inner ring lies an edge of the outer one.
  obtain ⟨e, he, hepassage, hle⟩ : ∃ e ∈ edges r, e.way.passage q ≠ 0 ∧
      e.way.ahead q ≤ f.way.ahead q := by
    by_contra hnone
    push Not at hnone
    rw [rounds_shift hfx.le hnone] at hround
    exact hround hzero
  obtain ⟨hex, t, ht, hespot⟩ := Way.exists_ahead hepassage
  have hlt : e.way.ahead q < f.way.ahead q := by
    refine hle.lt_of_ne fun heq => hapart e he f hf ⟨t, ht, u, hu, ?_⟩
    exact hespot.trans (by rw [heq]; exact hfspot.symm)
  have hinner : s.rounds (e.way.spotAt t) ≠ 0 := by
    rwa [hespot, rounds_shift hex.le fun g hg hne => hlt.trans_le (hffirst g hg hne)]
  have hcorner : s.rounds e.source.spot ≠ 0 := by
    have hclear : ∀ g ∈ edges s, ¬ g.Meets e := fun g hg => hapart.symm g hg e he
    have halong := rounds_along hclear (u := 0) ht ⟨le_rfl, zero_le_one⟩
    rw [Way.spotAt_zero] at halong
    rwa [← halong] at hinner
  exact not_around_each_other (source_mem he)
    (fun w hw => (rounds_corner_eq hapart hw hv).trans_ne h)
    (fun w hw => (rounds_corner_eq hapart.symm hw (source_mem he)).trans_ne hcorner)

theorem contains_of_nested {r s : Ring} (hapart : r.Apart s) {v p : Point}
    (hexact : Exact (p :: (r ++ s))) (hv : v ∈ s) (hcorner : contains r v = true)
    (hp : contains s p = true) : contains r p = true := by
  have hround : r.rounds v.spot ≠ 0 := by
    have hvr : Exact (v :: r) := hexact.tail.swap.cons_of_mem hv
    refine ((contains_iff_rounds hvr).1 hcorner).resolve_left fun ⟨e, he, hpasses⟩ => ?_
    obtain ⟨f, hf, rfl⟩ := exists_source hv
    exact hapart e he f hf (Edge.meets_of_passes_source hpasses)
  refine (contains_iff_rounds hexact.cons_left).2 (.inr ?_)
  rcases (contains_iff_rounds hexact.cons_right).1 hp with ⟨f, hf, t, ht, hspot⟩ | hinside
  · have hedge := rounds_edge_ne_zero hapart hv hround hf ht
    rwa [show f.way.spotAt t = p.spot from hspot] at hedge
  · exact rounds_of_nested hapart hv hround hinside

end Geocast.Plane.Ring
