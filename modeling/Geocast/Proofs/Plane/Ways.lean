import Geocast.Proofs.Plane.Winding

/-!
# Ways through the plane

Between the corners of a ring there are more spots than points with integer coordinates: where an
edge passes, and where a straight way from a point first comes upon an edge. Here winding numbers
are taken around all rational spots, and a straight way is followed from its start to its stop. An
edge that the way does not meet changes what it adds by a difference between its ends, so the ring
as a whole changes nothing.

* `Way.passage`, `Ring.rounds`: `Edge.crossing` and `Ring.winding` around a rational spot.
* `contains_iff_rounds`: the region of a ring, by what it runs around.
* `Way.meets_of_offsets`: a way that changes its side at the height of another meets it.
* `Way.passage_sub`: what a way that meets no edge changes at one edge.
* `rounds_of_clear`: a ring runs equally often around both ends of a way that meets none of its
  edges.
* `Way.passage_shift`, `exists_first`: along a horizontal way only the edges ahead count.
-/
namespace Geocast.Plane

/-- A place of the plane with rational coordinates. -/
abbrev Spot := ℚ × ℚ

def Point.spot (p : Point) : Spot := ((p.x : ℚ), (p.y : ℚ))

/-- A straight way from one spot to another. -/
structure Way where
  start : Spot
  stop : Spot

namespace Way

/-- The spot at a fraction of a way. -/
def spotAt (w : Way) (t : ℚ) : Spot :=
  (w.start.1 + t * (w.stop.1 - w.start.1), w.start.2 + t * (w.stop.2 - w.start.2))

def back (w : Way) : Way := ⟨w.stop, w.start⟩

/-- Two ways have a spot in common, their ends included. -/
def Meets (v w : Way) : Prop :=
  ∃ t ∈ Set.Icc (0 : ℚ) 1, ∃ u ∈ Set.Icc (0 : ℚ) 1, v.spotAt t = w.spotAt u

/-- On which side of a way a spot lies, and how far: positive on the left, negative on the right. -/
def offset (w : Way) (q : Spot) : ℚ :=
  (w.stop.1 - w.start.1) * (q.2 - w.start.2) - (w.stop.2 - w.start.2) * (q.1 - w.start.1)

/-- What a way adds to the winding number around a spot: one when it passes upwards on the right,
minus one when it passes downwards on the right. -/
def passage (w : Way) (q : Spot) : Int :=
  if w.start.2 ≤ q.2 then if q.2 < w.stop.2 ∧ 0 < w.offset q then 1 else 0
  else if w.stop.2 ≤ q.2 ∧ w.offset q < 0 then -1 else 0

/-! ## Spots of a way -/

theorem spotAt_zero (w : Way) : w.spotAt 0 = w.start := by simp [spotAt]

theorem spotAt_one (w : Way) : w.spotAt 1 = w.stop := by simp [spotAt]

theorem Meets.symm {v w : Way} (h : v.Meets w) : w.Meets v := by
  obtain ⟨t, ht, u, hu, heq⟩ := h
  exact ⟨u, hu, t, ht, heq.symm⟩

theorem spotAt_back (w : Way) (t : ℚ) : w.back.spotAt t = w.spotAt (1 - t) := by
  refine Prod.ext ?_ ?_
  · dsimp only [spotAt, back]
    ring
  · dsimp only [spotAt, back]
    ring

theorem Meets.of_back {v w : Way} (h : v.back.Meets w) : v.Meets w := by
  obtain ⟨t, ⟨h0, h1⟩, u, hu, heq⟩ := h
  exact ⟨1 - t, ⟨by linarith, by linarith⟩, u, hu, (v.spotAt_back t).symm.trans heq⟩

theorem spotAt_part (w : Way) (t u s : ℚ) :
    (Way.mk (w.spotAt t) (w.spotAt u)).spotAt s = w.spotAt ((1 - s) * t + s * u) := by
  refine Prod.ext ?_ ?_
  · dsimp only [spotAt]
    ring
  · dsimp only [spotAt]
    ring

theorem mean_mem {t u s : ℚ} (ht : t ∈ Set.Icc (0 : ℚ) 1) (hu : u ∈ Set.Icc (0 : ℚ) 1)
    (hs : s ∈ Set.Icc (0 : ℚ) 1) : (1 - s) * t + s * u ∈ Set.Icc (0 : ℚ) 1 := by
  obtain ⟨ht0, ht1⟩ := ht
  obtain ⟨hu0, hu1⟩ := hu
  obtain ⟨hs0, hs1⟩ := hs
  constructor <;> nlinarith

theorem Meets.of_part {v w : Way} {t u : ℚ} (ht : t ∈ Set.Icc (0 : ℚ) 1)
    (hu : u ∈ Set.Icc (0 : ℚ) 1) (h : v.Meets ⟨w.spotAt t, w.spotAt u⟩) : v.Meets w := by
  obtain ⟨s, hs, s', hs', heq⟩ := h
  exact ⟨s, hs, _, mean_mem ht hu hs', heq.trans (w.spotAt_part t u s')⟩

/-! ## Sides -/

theorem offset_back (w : Way) (q : Spot) : w.back.offset q = -w.offset q := by
  unfold offset back
  ring

theorem offset_start (w : Way) : w.offset w.start = 0 := by
  unfold offset
  ring

theorem offset_stop (w : Way) : w.offset w.stop = 0 := by
  unfold offset
  ring

theorem passage_back (w : Way) (q : Spot) : w.back.passage q = -w.passage q := by
  unfold passage
  rw [offset_back]
  dsimp only [back]
  by_cases hstart : w.start.2 ≤ q.2 <;> by_cases hstop : w.stop.2 ≤ q.2
  · simp [hstart, hstop, hstop.not_gt, hstart.not_gt]
  · simp [hstart, hstop, not_le.1 hstop]
    split_ifs <;> rfl
  · simp [hstart, hstop, not_le.1 hstart]
    split_ifs <;> rfl
  · simp [hstart, hstop]

theorem passage_of_upward {w : Way} (hup : w.start.2 ≤ w.stop.2) (q : Spot) :
    w.passage q = if w.start.2 ≤ q.2 ∧ q.2 < w.stop.2 ∧ 0 < w.offset q then 1 else 0 := by
  unfold passage
  by_cases hstart : w.start.2 ≤ q.2
  · simp only [hstart, if_true, true_and]
  · simp only [hstart, if_false, false_and, ite_eq_right_iff]
    intro h
    linarith [h.1]

/-- The side changes evenly along a way. -/
theorem offset_spotAt (v w : Way) (t u s : ℚ) :
    v.offset (w.spotAt ((1 - s) * t + s * u)) =
      (1 - s) * v.offset (w.spotAt t) + s * v.offset (w.spotAt u) := by
  unfold offset spotAt
  ring

theorem exists_mean_zero {a b : ℚ} (ha : 0 ≤ a) (hb : b ≤ 0) :
    ∃ s ∈ Set.Icc (0 : ℚ) 1, (1 - s) * a + s * b = 0 := by
  rcases (sub_nonneg.2 (hb.trans ha)).eq_or_lt with heq | hlt
  · exact ⟨0, ⟨le_rfl, zero_le_one⟩, by linarith⟩
  · refine ⟨a / (a - b), ⟨div_nonneg ha hlt.le, (div_le_one hlt).2 (by linarith)⟩, ?_⟩
    field_simp
    ring

/-- The fraction of a way at which it is as high as a spot. -/
def fractionAt (w : Way) (q : Spot) : ℚ := (q.2 - w.start.2) / (w.stop.2 - w.start.2)

theorem spotAt_fractionAt {w : Way} (hne : w.start.2 ≠ w.stop.2) (q : Spot) :
    (w.spotAt (w.fractionAt q)).2 = q.2 := by
  dsimp only [spotAt, fractionAt]
  rw [div_mul_cancel₀ _ (sub_ne_zero.2 hne.symm)]
  ring

theorem fractionAt_mem {w : Way} (hup : w.start.2 < w.stop.2) {q : Spot} (hlo : w.start.2 ≤ q.2)
    (hhi : q.2 ≤ w.stop.2) : w.fractionAt q ∈ Set.Icc (0 : ℚ) 1 := by
  have hpos : 0 < w.stop.2 - w.start.2 := sub_pos.2 hup
  exact ⟨div_nonneg (by linarith) hpos.le, (div_le_one hpos).2 (by linarith)⟩

/-- A spot on the line of a way that is as high as some spot of the way is that spot. -/
theorem exists_spotAt {w : Way} (hup : w.start.2 < w.stop.2) {q : Spot} (h : w.offset q = 0)
    (hlo : w.start.2 ≤ q.2) (hhi : q.2 ≤ w.stop.2) :
    ∃ t ∈ Set.Icc (0 : ℚ) 1, w.spotAt t = q := by
  have hpos : 0 < w.stop.2 - w.start.2 := sub_pos.2 hup
  refine ⟨w.fractionAt q, fractionAt_mem hup hlo hhi, Prod.ext ?_ (spotAt_fractionAt hup.ne q)⟩
  unfold offset at h
  dsimp only [spotAt, fractionAt]
  field_simp
  linarith

/-- A way that changes its side while it is as high as a way upwards meets it. -/
theorem meets_of_offsets {v w : Way} (hup : v.start.2 < v.stop.2) {t u : ℚ}
    (ht : t ∈ Set.Icc (0 : ℚ) 1) (hu : u ∈ Set.Icc (0 : ℚ) 1)
    (htlo : v.start.2 ≤ (w.spotAt t).2) (hthi : (w.spotAt t).2 ≤ v.stop.2)
    (hulo : v.start.2 ≤ (w.spotAt u).2) (huhi : (w.spotAt u).2 ≤ v.stop.2)
    (hleft : 0 ≤ v.offset (w.spotAt t)) (hright : v.offset (w.spotAt u) ≤ 0) : v.Meets w := by
  obtain ⟨s, hs, hzero⟩ := exists_mean_zero hleft hright
  rw [← offset_spotAt] at hzero
  have hheight : (w.spotAt ((1 - s) * t + s * u)).2 =
      (1 - s) * (w.spotAt t).2 + s * (w.spotAt u).2 := by
    dsimp only [spotAt]
    ring
  obtain ⟨t', ht', heq⟩ := exists_spotAt hup hzero
    (by rw [hheight]; nlinarith [hs.1, hs.2]) (by rw [hheight]; nlinarith [hs.1, hs.2])
  exact ⟨t', ht', _, mean_mem ht hu hs, heq⟩

/-! ## What a clear way changes -/

/-- Minus one for a spot right of a way upwards, above its start and not above its stop. -/
def beside (w : Way) (q : Spot) : Int :=
  if w.start.2 < q.2 ∧ q.2 ≤ w.stop.2 ∧ w.offset q < 0 then -1 else 0

/-- At the height of a spot of one way the other way is left of the first exactly if the spot is
right of the other. -/
theorem offset_fractionAt_pos_iff {v w : Way} (hv : v.start.2 < v.stop.2)
    (hw : w.start.2 < w.stop.2) {q : Spot} (hq : v.offset q = 0) :
    0 < v.offset (w.spotAt (w.fractionAt q)) ↔ w.offset q < 0 := by
  have hv' : 0 < v.stop.2 - v.start.2 := sub_pos.2 hv
  have hw' : 0 < w.stop.2 - w.start.2 := sub_pos.2 hw
  have heq : v.offset (w.spotAt (w.fractionAt q)) * (w.stop.2 - w.start.2) =
      (v.stop.2 - v.start.2) * -w.offset q := by
    have hx : (w.spotAt (w.fractionAt q)).1 * (w.stop.2 - w.start.2) =
        w.start.1 * (w.stop.2 - w.start.2) + (q.2 - w.start.2) * (w.stop.1 - w.start.1) := by
      dsimp only [spotAt, fractionAt]
      field_simp
    have hy := spotAt_fractionAt hw.ne q
    unfold offset at hq ⊢
    rw [hy]
    linear_combination (-(v.stop.2 - v.start.2)) * hx + (w.stop.2 - w.start.2) * hq
  rw [← mul_pos_iff_of_pos_right hw', heq, mul_pos_iff_of_pos_left hv', neg_pos]

section Clear
variable {v w : Way} (hclear : ¬ v.Meets w)
include hclear

/-- A clear way at heights of an edge upwards stays on one side of it. -/
theorem offset_pos_iff_of_clear (hup : v.start.2 < v.stop.2) {t u : ℚ}
    (ht : t ∈ Set.Icc (0 : ℚ) 1) (hu : u ∈ Set.Icc (0 : ℚ) 1)
    (htlo : v.start.2 ≤ (w.spotAt t).2) (hthi : (w.spotAt t).2 ≤ v.stop.2)
    (hulo : v.start.2 ≤ (w.spotAt u).2) (huhi : (w.spotAt u).2 ≤ v.stop.2) :
    0 < v.offset (w.spotAt t) ↔ 0 < v.offset (w.spotAt u) := by
  constructor
  · intro h
    by_contra hnot
    exact hclear (meets_of_offsets hup ht hu htlo hthi hulo huhi h.le (not_lt.1 hnot))
  · intro h
    by_contra hnot
    exact hclear (meets_of_offsets hup hu ht hulo huhi htlo hthi h.le (not_lt.1 hnot))

/-- An edge within the heights of a clear way upwards is on one side of it. -/
theorem offset_neg_iff_of_clear (hup : w.start.2 < w.stop.2) (hslo : w.start.2 ≤ v.start.2)
    (hshi : v.start.2 ≤ w.stop.2) (htlo : w.start.2 ≤ v.stop.2) (hthi : v.stop.2 ≤ w.stop.2) :
    w.offset v.start < 0 ↔ w.offset v.stop < 0 := by
  have hzero : (0 : ℚ) ∈ Set.Icc (0 : ℚ) 1 := ⟨le_rfl, zero_le_one⟩
  have hone : (1 : ℚ) ∈ Set.Icc (0 : ℚ) 1 := ⟨zero_le_one, le_rfl⟩
  constructor
  · intro h
    by_contra hnot
    refine hclear (meets_of_offsets (v := w) (w := v) hup hone hzero ?_ ?_ ?_ ?_ ?_ ?_).symm <;>
      simp only [spotAt_zero, spotAt_one] <;> linarith
  · intro h
    by_contra hnot
    refine hclear (meets_of_offsets (v := w) (w := v) hup hzero hone ?_ ?_ ?_ ?_ ?_ ?_).symm <;>
      simp only [spotAt_zero, spotAt_one] <;> linarith

/-- Where an edge upwards ends beside a clear way upwards, its end is right of the way if the edge
passes the start of the way on the right. -/
theorem offset_start_pos_iff (hlo : v.start.2 ≤ w.start.2) (hhi : w.start.2 < v.stop.2)
    (hstop : v.stop.2 ≤ w.stop.2) : 0 < v.offset w.start ↔ w.offset v.stop < 0 := by
  have hv := hlo.trans_lt hhi
  have hw := hhi.trans_le hstop
  have hheight := spotAt_fractionAt hw.ne v.stop
  rw [← offset_fractionAt_pos_iff hv hw v.offset_stop, ← w.spotAt_zero]
  refine offset_pos_iff_of_clear hclear hv ⟨le_rfl, zero_le_one⟩ (fractionAt_mem hw hhi.le hstop) ?_
    ?_ (by rw [hheight]; exact hv.le) hheight.le
  · rwa [spotAt_zero]
  · rw [spotAt_zero]
    exact hhi.le

/-- Where an edge upwards starts beside a clear way upwards, its start is right of the way if the
edge passes the stop of the way on the right. -/
theorem offset_stop_pos_iff (hstart : w.start.2 < v.start.2) (hlo : v.start.2 ≤ w.stop.2)
    (hhi : w.stop.2 < v.stop.2) : 0 < v.offset w.stop ↔ w.offset v.start < 0 := by
  have hv := hlo.trans_lt hhi
  have hw := hstart.trans_le hlo
  have hheight := spotAt_fractionAt hw.ne v.start
  rw [← offset_fractionAt_pos_iff hv hw v.offset_start, ← w.spotAt_one]
  refine offset_pos_iff_of_clear hclear hv ⟨zero_le_one, le_rfl⟩
    (fractionAt_mem hw hstart.le hlo) ?_
    ?_ hheight.ge (by rw [hheight]; exact hv.le)
  · rwa [spotAt_one]
  · rw [spotAt_one]
    exact hhi.le

theorem passage_sub_of_upward (hv : v.start.2 ≤ v.stop.2) (hw : w.start.2 ≤ w.stop.2) :
    v.passage w.stop - v.passage w.start = w.beside v.stop - w.beside v.start := by
  rw [passage_of_upward hv, passage_of_upward hv, beside, beside]
  by_cases hbelow : v.stop.2 ≤ w.start.2
  · simp [hbelow.not_gt, (hv.trans hbelow).not_gt, (hbelow.trans hw).not_gt]
  by_cases habove : w.stop.2 < v.start.2
  · simp [habove.not_ge, (habove.trans_le hv).not_ge, (hw.trans_lt habove).not_ge]
  rw [not_le] at hbelow
  rw [not_lt] at habove
  by_cases hstart : v.start.2 ≤ w.start.2 <;> by_cases hstop : v.stop.2 ≤ w.stop.2
  · have hside := offset_start_pos_iff hclear hstart hbelow hstop
    simp only [hstart, hbelow, hstop, hside, hstop.not_gt, hstart.not_gt, true_and, false_and,
      and_false, if_false]
    split_ifs <;> rfl
  · rw [not_le] at hstop
    have hside := offset_pos_iff_of_clear hclear (hstart.trans_lt hbelow) (t := 0) (u := 1)
      ⟨le_rfl, zero_le_one⟩ ⟨zero_le_one, le_rfl⟩
    simp only [spotAt_zero, spotAt_one] at hside
    simp [hstart, hbelow, hstop, hstart.not_gt, hstop.not_ge, habove,
      hside hstart hbelow.le habove hstop.le]
  · rw [not_le] at hstart
    have hside := offset_neg_iff_of_clear hclear (hbelow.trans_le hstop) hstart.le habove hbelow.le
      hstop
    simp [hstart, hbelow, hstop, hstart.not_ge, hstop.not_gt, habove, hside]
  · rw [not_le] at hstart hstop
    have hside := offset_stop_pos_iff hclear hstart habove hstop
    simp only [hstart, hstop, habove, hside, hstart.not_ge, hstop.not_ge, true_and, false_and,
      and_false, if_false]
    split_ifs <;> rfl

/-- What a clear way upwards changes at an edge. -/
theorem passage_sub (hw : w.start.2 ≤ w.stop.2) :
    v.passage w.stop - v.passage w.start = w.beside v.stop - w.beside v.start := by
  rcases le_total v.start.2 v.stop.2 with hv | hv
  · exact passage_sub_of_upward hclear hv hw
  · have hback := passage_sub_of_upward (fun h => hclear h.of_back) (v := v.back) hv hw
    rw [passage_back, passage_back] at hback
    dsimp only [back] at hback
    omega

end Clear

/-! ## Horizontal ways -/

/-- How far right a way lies at the height of a spot. -/
def ahead (w : Way) (q : Spot) : ℚ := (w.spotAt (w.fractionAt q)).1

theorem offset_eq {w : Way} (hne : w.start.2 ≠ w.stop.2) (q : Spot) :
    w.offset q = (w.stop.2 - w.start.2) * (w.ahead q - q.1) := by
  have hd : w.stop.2 - w.start.2 ≠ 0 := sub_ne_zero.2 hne.symm
  dsimp only [offset, ahead, spotAt, fractionAt]
  field_simp
  ring

/-- A way upwards adds one for the spots at its height that it lies right of, a way downwards takes
one off. The lower end counts, the upper end does not. -/
theorem passage_eq (w : Way) (q : Spot) : w.passage q =
    if (w.start.2 ≤ q.2 ∧ q.2 < w.stop.2) ∧ q.1 < w.ahead q then 1
    else if (w.stop.2 ≤ q.2 ∧ q.2 < w.start.2) ∧ q.1 < w.ahead q then -1 else 0 := by
  unfold passage
  by_cases hstart : w.start.2 ≤ q.2
  · by_cases hstop : q.2 < w.stop.2
    · have hup := hstart.trans_lt hstop
      have hside : 0 < w.offset q ↔ q.1 < w.ahead q := by
        rw [offset_eq hup.ne, mul_pos_iff_of_pos_left (sub_pos.2 hup), sub_pos]
      simp [hstart, hstop, hside, hstart.not_gt]
    · simp [hstart, hstop, hstart.not_gt]
  · by_cases hstop : w.stop.2 ≤ q.2
    · have hdown := hstop.trans_lt (not_le.1 hstart)
      have hside : w.offset q < 0 ↔ q.1 < w.ahead q := by
        rw [offset_eq hdown.ne', ← neg_pos, ← neg_mul, mul_pos_iff_of_pos_left (by linarith),
          sub_pos]
      simp [hstart, hstop, hside, not_le.1 hstart]
    · simp [hstart, hstop]

theorem passage_ne_zero_iff {w : Way} {q : Spot} : w.passage q ≠ 0 ↔
    ((w.start.2 ≤ q.2 ∧ q.2 < w.stop.2) ∨ (w.stop.2 ≤ q.2 ∧ q.2 < w.start.2)) ∧
      q.1 < w.ahead q := by
  rw [passage_eq]
  split_ifs with hup hdown
  · exact iff_of_true one_ne_zero ⟨.inl hup.1, hup.2⟩
  · exact iff_of_true (by decide) ⟨.inr hdown.1, hdown.2⟩
  · exact iff_of_false (· rfl) fun h => h.1.elim (hup ⟨·, h.2⟩) (hdown ⟨·, h.2⟩)

theorem exists_ahead {w : Way} {q : Spot} (h : w.passage q ≠ 0) :
    q.1 < w.ahead q ∧ ∃ t ∈ Set.Icc (0 : ℚ) 1, w.spotAt t = (w.ahead q, q.2) := by
  obtain ⟨hspans, hlt⟩ := passage_ne_zero_iff.1 h
  have hmem : w.start.2 ≠ w.stop.2 ∧ w.fractionAt q ∈ Set.Icc (0 : ℚ) 1 := by
    rcases hspans with ⟨hlo, hhi⟩ | ⟨hlo, hhi⟩
    · have hup := hlo.trans_lt hhi
      exact ⟨hup.ne, fractionAt_mem hup hlo hhi.le⟩
    · have hdown := sub_neg.2 (hlo.trans_lt hhi)
      exact ⟨(hlo.trans_lt hhi).ne', div_nonneg_of_nonpos (by linarith) hdown.le,
        (div_le_one_of_neg hdown).2 (by linarith)⟩
  exact ⟨hlt, _, hmem.2, Prod.ext rfl (spotAt_fractionAt hmem.1 q)⟩

/-- To the right, a way goes on adding what it adds until it is reached. -/
theorem passage_shift {w : Way} {q : Spot} {x : ℚ} (hx : q.1 ≤ x)
    (h : w.passage q ≠ 0 → x < w.ahead q) : w.passage (x, q.2) = w.passage q := by
  have hahead : w.ahead (x, q.2) = w.ahead q := rfl
  by_cases hzero : w.passage q = 0
  · rw [hzero]
    by_contra hne
    obtain ⟨hspans, hlt⟩ := passage_ne_zero_iff.1 hne
    exact passage_ne_zero_iff (q := q).2 ⟨hspans, hx.trans_lt hlt⟩ hzero
  · have hlt := h hzero
    rw [passage_eq, passage_eq, hahead]
    simp only [hlt, hx.trans_lt hlt]

end Way

/-! ## Around a ring -/

def Edge.way (e : Edge) : Way := ⟨e.source.spot, e.target.spot⟩

namespace Ring

/-- How often a ring runs around a spot, counterclockwise positive. -/
def rounds (r : Ring) (q : Spot) : Int := ((edges r).map (·.way.passage q)).sum

theorem rounds_spot {r : Ring} {p : Point} (hexact : Exact (p :: r)) :
    r.rounds p.spot = winding r p := by
  have hmem : ∀ v ∈ r, v ∈ p :: r := fun v hv => List.mem_cons_of_mem p hv
  rw [rounds, winding_eq_sum]
  congr 1
  refine List.map_congr_left fun e he => ?_
  have harea : e.way.offset p.spot = (area e.source e.target p : ℚ) := by
    unfold area Way.offset Edge.way Point.spot
    push_cast
    ring
  rw [Edge.crossing_eq hexact (hmem _ (source_mem he)) (hmem _ (target_mem he)) List.mem_cons_self,
    Way.passage, harea]
  dsimp only [Edge.way, Point.spot]
  norm_cast

/-- Where sides are exact, the region of a ring is what it runs around and its edges. -/
theorem contains_iff_rounds {r : Ring} {p : Point} (hexact : Exact (p :: r)) :
    contains r p = true ↔ (∃ e ∈ edges r, e.Passes p) ∨ r.rounds p.spot ≠ 0 := by
  rw [contains_iff hexact, rounds_spot hexact]

theorem rounds_of_clear_upward {r : Ring} {w : Way} (hw : w.start.2 ≤ w.stop.2)
    (hclear : ∀ e ∈ edges r, ¬ e.way.Meets w) : r.rounds w.stop = r.rounds w.start := by
  have hadd : ∀ e ∈ edges r, e.way.passage w.stop =
      e.way.passage w.start + (w.beside e.target.spot - w.beside e.source.spot) := fun e he =>
    eq_add_of_sub_eq' (Way.passage_sub (hclear e he) hw)
  rw [rounds, List.map_congr_left hadd, List.sum_map_add,
    sum_steps_edges (fun v => w.beside v.spot), add_zero, rounds]

/-- A ring runs equally often around both ends of a way that meets none of its edges. -/
theorem rounds_of_clear {r : Ring} {w : Way} (hclear : ∀ e ∈ edges r, ¬ e.way.Meets w) :
    r.rounds w.stop = r.rounds w.start := by
  rcases le_total w.start.2 w.stop.2 with hw | hw
  · exact rounds_of_clear_upward hw hclear
  · exact (rounds_of_clear_upward (w := w.back) hw
      fun e he h => hclear e he h.symm.of_back.symm).symm

/-- To the right, a ring runs equally often around all spots before the edges that lie ahead. -/
theorem rounds_shift {r : Ring} {q : Spot} {x : ℚ} (hx : q.1 ≤ x)
    (h : ∀ e ∈ edges r, e.way.passage q ≠ 0 → x < e.way.ahead q) :
    r.rounds (x, q.2) = r.rounds q := by
  unfold rounds
  congr 1
  exact List.map_congr_left fun e he => Way.passage_shift hx (h e he)

theorem exists_first {r : Ring} {q : Spot} (h : r.rounds q ≠ 0) :
    ∃ e ∈ edges r, e.way.passage q ≠ 0 ∧
      ∀ f ∈ edges r, f.way.passage q ≠ 0 → e.way.ahead q ≤ f.way.ahead q := by
  have hsome : ((edges r).filter fun e => e.way.passage q != 0).toFinset.Nonempty := by
    obtain ⟨e, he, hne⟩ : ∃ e ∈ edges r, e.way.passage q ≠ 0 := by
      by_contra hnone
      push Not at hnone
      refine h (List.sum_eq_zero fun n hn => ?_)
      obtain ⟨e, he, rfl⟩ := List.mem_map.1 hn
      exact hnone e he
    exact ⟨e, by simp [he, hne]⟩
  obtain ⟨e, he, hleast⟩ := Finset.exists_min_image _ (fun e => e.way.ahead q) hsome
  simp only [List.mem_toFinset, List.mem_filter, bne_iff_ne] at he hleast
  exact ⟨e, he.1, he.2, fun f hf hne => hleast f ⟨hf, hne⟩⟩

end Ring

end Geocast.Plane
