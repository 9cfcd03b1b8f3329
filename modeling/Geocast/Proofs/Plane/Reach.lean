import Geocast.Proofs.Plane.Overlap
import Geocast.Proofs.Plane.Ways

/-!
# Regions with a point in common

The test of two rings looks at edges and corners only, and a point that both regions contain may be
deep inside both. From such a point a way is followed to the right until it comes upon an edge. Up
to there the other ring runs around it as often as around the point; along the edge that stays so up
to a corner, unless edges meet. So edges meet, or the corner is in the other region.

* `rounds_along`: a ring runs equally often around all spots of an edge that none of its edges
  meets.
* `contains_of_way`: what is reached from inside without coming upon an edge.
* `joined_of_rounds`: a ring that runs around a spot of an edge.
* `joined_of_contains`: rings whose regions have a point in common.
-/
namespace Geocast.Plane

namespace Exact
variable {p : Point} {r s : Ring}

theorem swap (h : Exact (r ++ s)) : Exact (s ++ r) :=
  h.mono fun _ hv => List.mem_append.2 (List.mem_append.1 hv).symm

theorem tail (h : Exact (p :: r)) : Exact r := h.mono (List.subset_cons_self p r)

theorem cons_left (h : Exact (p :: (r ++ s))) : Exact (p :: r) :=
  h.mono (List.cons_subset_cons p (List.subset_append_left r s))

theorem cons_right (h : Exact (p :: (r ++ s))) : Exact (p :: s) :=
  h.mono (List.cons_subset_cons p (List.subset_append_right r s))

theorem cons_of_mem (h : Exact (r ++ s)) (hp : p ∈ r) : Exact (p :: s) :=
  h.mono (List.cons_subset.2 ⟨List.mem_append_left s hp, List.subset_append_right r s⟩)

end Exact

namespace Ring

theorem rounds_along {s : Ring} {e : Edge} (hclear : ∀ f ∈ edges s, ¬ f.Meets e) {t u : ℚ}
    (ht : t ∈ Set.Icc (0 : ℚ) 1) (hu : u ∈ Set.Icc (0 : ℚ) 1) :
    s.rounds (e.way.spotAt u) = s.rounds (e.way.spotAt t) :=
  rounds_of_clear (w := ⟨e.way.spotAt t, e.way.spotAt u⟩) fun f hf h =>
    hclear f hf (Way.Meets.of_part (w := e.way) ht hu h)

theorem Joined.symm {r s : Ring} (h : r.Joined s) : s.Joined r := by
  rcases h with ⟨e, he, f, hf, hmeets⟩ | hcorner | hcorner
  · exact .inl ⟨f, hf, e, he, hmeets.symm⟩
  · exact .inr (.inr hcorner)
  · exact .inr (.inl hcorner)

theorem joined_of_rounds {r s : Ring} (hexact : Exact (r ++ s)) {e : Edge} (he : e ∈ edges r)
    {t : ℚ} (ht : t ∈ Set.Icc (0 : ℚ) 1) (h : s.rounds (e.way.spotAt t) ≠ 0) : r.Joined s := by
  by_cases hmeet : ∃ f ∈ edges s, f.Meets e
  · obtain ⟨f, hf, hmeets⟩ := hmeet
    exact .inl ⟨e, he, f, hf, hmeets.symm⟩
  · push Not at hmeet
    rw [← rounds_along hmeet ht ⟨zero_le_one, le_rfl⟩, Way.spotAt_one] at h
    have hcorner := (contains_iff_rounds (hexact.cons_of_mem (target_mem he))).2 (.inr h)
    exact .inr (.inr ⟨e.target, target_mem he, hcorner⟩)

theorem joined_of_both_rounds {r s : Ring} (hexact : Exact (r ++ s)) {q : Spot}
    (hr : r.rounds q ≠ 0) (hs : s.rounds q ≠ 0) : r.Joined s := by
  obtain ⟨e, he, hepassage, hefirst⟩ := exists_first hr
  obtain ⟨f, hf, hfpassage, hffirst⟩ := exists_first hs
  obtain ⟨hex, t, ht, hespot⟩ := Way.exists_ahead hepassage
  obtain ⟨hfx, u, hu, hfspot⟩ := Way.exists_ahead hfpassage
  rcases lt_trichotomy (e.way.ahead q) (f.way.ahead q) with hlt | heq | hgt
  · refine joined_of_rounds hexact he ht ?_
    rwa [hespot, rounds_shift hex.le fun g hg hne => hlt.trans_le (hffirst g hg hne)]
  · exact .inl ⟨e, he, f, hf, t, ht, u, hu, hespot.trans (by rw [heq]; exact hfspot.symm)⟩
  · refine (joined_of_rounds hexact.swap hf hu ?_).symm
    rwa [hfspot, rounds_shift hfx.le fun g hg hne => hgt.trans_le (hefirst g hg hne)]

/-- Where sides are exact, rings whose regions have a point in common have a place in common that
edges and corners tell. -/
theorem joined_of_contains {r s : Ring} {p : Point} (hexact : Exact (p :: (r ++ s)))
    (hr : contains r p = true) (hs : contains s p = true) : r.Joined s := by
  have hrs : Exact (r ++ s) := hexact.tail
  rw [contains_iff_rounds hexact.cons_left] at hr
  rw [contains_iff_rounds hexact.cons_right] at hs
  rcases hr with ⟨e, he, t, ht, hespot⟩ | hr <;> rcases hs with ⟨f, hf, u, hu, hfspot⟩ | hs
  · exact .inl ⟨e, he, f, hf, t, ht, u, hu, hespot.trans hfspot.symm⟩
  · refine joined_of_rounds hrs he ht ?_
    rwa [show e.way.spotAt t = p.spot from hespot]
  · refine (joined_of_rounds hrs.swap hf hu ?_).symm
    rwa [show f.way.spotAt u = p.spot from hfspot]
  · exact joined_of_both_rounds hrs hr hs

end Ring

end Geocast.Plane
