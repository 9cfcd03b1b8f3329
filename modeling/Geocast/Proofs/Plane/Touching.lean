import Geocast.Proofs.Plane.Sides

/-!
# Edges that have a point in common

`Edge.touches` decides by sides and boxes whether two edges touch. Here the points of an edge are
taken at rational fractions of it, and where sides are exact the test finds out whether the edges
have such a point in common.

* `Edge.Passes`, `Edge.Meets`: an edge passes through a point; two edges have one in common.
* `contains_iff_passes`: the test of a point against an edge.
* `meets_of_crossing`, `meets_of_collinear`: edges that cross, and edges on one line.
* `touches_iff_meets`: the test of two edges.
-/
namespace Geocast.Plane

namespace Edge

/-! ## Points of an edge -/

/-- The point at a fraction of the way along an edge. -/
def pointAt (e : Edge) (t : ℚ) : ℚ × ℚ :=
  (e.source.x + t * (e.target.x - e.source.x), e.source.y + t * (e.target.y - e.source.y))

/-- An edge passes through a point, its ends included. -/
def Passes (e : Edge) (p : Point) : Prop :=
  ∃ t ∈ Set.Icc (0 : ℚ) 1, e.pointAt t = ((p.x : ℚ), (p.y : ℚ))

/-- Two edges have a point in common, their ends included. -/
def Meets (e f : Edge) : Prop :=
  ∃ t ∈ Set.Icc (0 : ℚ) 1, ∃ u ∈ Set.Icc (0 : ℚ) 1, e.pointAt t = f.pointAt u

theorem pointAt_zero (e : Edge) : e.pointAt 0 = ((e.source.x : ℚ), (e.source.y : ℚ)) := by
  simp [pointAt]

theorem pointAt_one (e : Edge) : e.pointAt 1 = ((e.target.x : ℚ), (e.target.y : ℚ)) := by
  simp [pointAt]

theorem Meets.symm {e f : Edge} (h : e.Meets f) : f.Meets e := by
  obtain ⟨t, ht, u, hu, heq⟩ := h
  exact ⟨u, hu, t, ht, heq.symm⟩

theorem ne_or_ne {e : Edge} (h : e.source ≠ e.target) :
    (e.target.x - e.source.x : ℚ) ≠ 0 ∨ (e.target.y - e.source.y : ℚ) ≠ 0 := by
  by_contra hnot
  rw [not_or, not_not, not_not, sub_eq_zero, sub_eq_zero] at hnot
  have hx : e.source.x = e.target.x := by exact_mod_cast hnot.1.symm
  have hy : e.source.y = e.target.y := by exact_mod_cast hnot.2.symm
  exact h (Point.ext hx hy)

theorem pointAt_injective {e : Edge} (hne : e.source ≠ e.target) {t u : ℚ}
    (h : e.pointAt t = e.pointAt u) : t = u := by
  obtain ⟨hx, hy⟩ := Prod.mk.inj h
  rcases ne_or_ne hne with hd | hd
  · exact mul_right_cancel₀ hd (by linarith)
  · exact mul_right_cancel₀ hd (by linarith)

theorem exists_pointAt {e : Edge} {p : Point} (hne : e.source ≠ e.target)
    (h : area e.source e.target p = 0) : ∃ t, e.pointAt t = ((p.x : ℚ), (p.y : ℚ)) := by
  have hline : ((e.target.x - e.source.x) * (p.y - e.source.y) -
      (e.target.y - e.source.y) * (p.x - e.source.x) : ℚ) = 0 := by
    exact_mod_cast h
  rcases ne_or_ne hne with hd | hd
  · refine ⟨(p.x - e.source.x) / (e.target.x - e.source.x), Prod.ext ?_ ?_⟩
    · dsimp only [pointAt]
      rw [div_mul_cancel₀ _ hd]
      ring
    · dsimp only [pointAt]
      field_simp
      linarith
  · refine ⟨(p.y - e.source.y) / (e.target.y - e.source.y), Prod.ext ?_ ?_⟩
    · dsimp only [pointAt]
      field_simp
      linarith
    · dsimp only [pointAt]
      rw [div_mul_cancel₀ _ hd]
      ring

theorem area_of_pointAt {e : Edge} {p : Point} {t : ℚ}
    (h : e.pointAt t = ((p.x : ℚ), (p.y : ℚ))) : area e.source e.target p = 0 := by
  obtain ⟨hx, hy⟩ := Prod.mk.inj h
  have hline : ((e.target.x - e.source.x) * (p.y - e.source.y) -
      (e.target.y - e.source.y) * (p.x - e.source.x) : ℚ) = 0 := by
    rw [← hx, ← hy]
    ring
  exact_mod_cast hline

theorem between_of_fraction (a b : Int) {t : ℚ} (ht : t ∈ Set.Icc (0 : ℚ) 1) :
    ((min a b : Int) : ℚ) ≤ a + t * (b - a) ∧ a + t * (b - a) ≤ ((max a b : Int) : ℚ) := by
  obtain ⟨h0, h1⟩ := ht
  push_cast
  rcases le_total (a : ℚ) b with hab | hab
  · rw [min_eq_left hab, max_eq_right hab]
    constructor <;> nlinarith
  · rw [min_eq_right hab, max_eq_left hab]
    constructor <;> nlinarith

theorem fraction_of_between {a b c : Int} {t : ℚ} (hd : (b - a : ℚ) ≠ 0)
    (hlo : min a b ≤ c) (hhi : c ≤ max a b) (h : (a + t * (b - a) : ℚ) = c) :
    t ∈ Set.Icc (0 : ℚ) 1 := by
  have hlo' : (min (a : ℚ) b) ≤ c := by exact_mod_cast hlo
  have hhi' : (c : ℚ) ≤ max (a : ℚ) b := by exact_mod_cast hhi
  rcases lt_or_gt_of_ne hd with hneg | hpos
  · rw [min_eq_right (by linarith)] at hlo'
    rw [max_eq_left (by linarith)] at hhi'
    constructor <;> nlinarith
  · rw [min_eq_left (by linarith)] at hlo'
    rw [max_eq_right (by linarith)] at hhi'
    constructor <;> nlinarith

/-- A point is on an edge when it is on its line and in its box. -/
theorem passes_iff {e : Edge} {p : Point} :
    e.Passes p ↔ e.box.contains p = true ∧ area e.source e.target p = 0 := by
  constructor
  · intro ⟨t, ht, h⟩
    obtain ⟨hx, hy⟩ := Prod.mk.inj h
    have hbx := between_of_fraction e.source.x e.target.x ht
    have hby := between_of_fraction e.source.y e.target.y ht
    rw [hx] at hbx
    rw [hy] at hby
    refine ⟨Box.contains_iff.2 ⟨?_, ?_⟩, area_of_pointAt h⟩
    · exact ⟨by exact_mod_cast hbx.1, by exact_mod_cast hbx.2⟩
    · exact ⟨by exact_mod_cast hby.1, by exact_mod_cast hby.2⟩
  · intro ⟨hbox, harea⟩
    obtain ⟨⟨hxlo, hxhi⟩, hylo, hyhi⟩ := Box.contains_iff.1 hbox
    dsimp only [box, Box.span] at hxlo hxhi hylo hyhi
    by_cases hne : e.source = e.target
    · rw [hne, min_self] at hxlo hylo
      rw [hne, max_self] at hxhi hyhi
      refine ⟨1, ⟨zero_le_one, le_rfl⟩, ?_⟩
      rw [pointAt_one, le_antisymm hxlo hxhi, le_antisymm hylo hyhi]
    · obtain ⟨t, h⟩ := exists_pointAt hne harea
      obtain ⟨hx, hy⟩ := Prod.mk.inj h
      refine ⟨t, ?_, h⟩
      rcases ne_or_ne hne with hd | hd
      · exact fraction_of_between hd hxlo hxhi hx
      · exact fraction_of_between hd hylo hyhi hy

/-- Where sides are exact, a point is found to be on an edge when the edge passes through it. -/
theorem contains_iff_passes {points : List Point} (hexact : Exact points) {e : Edge} {p : Point}
    (hs : e.source ∈ points) (ht : e.target ∈ points) (hp : p ∈ points) :
    e.contains p = true ↔ e.Passes p := by
  rw [contains, Bool.and_eq_true, beq_iff_eq, hexact.side_eq_zero_iff hs ht hp, passes_iff]

/-! ## Sides along an edge -/

/-- The area from an edge to a point on another is the mean of the areas to its ends. -/
theorem area_along {e f : Edge} {t u : ℚ} (h : e.pointAt t = f.pointAt u) :
    (1 - u) * area e.source e.target f.source + u * area e.source e.target f.target = 0 := by
  obtain ⟨hx, hy⟩ := Prod.mk.inj h
  unfold area
  push_cast
  linear_combination (e.target.y - e.source.y : ℚ) * hx - (e.target.x - e.source.x : ℚ) * hy

/-- The areas between two edges add up, taken at the sources as at the targets. -/
theorem area_sub_area (e f : Edge) :
    area e.source e.target f.source - area e.source e.target f.target =
      area f.source f.target e.target - area f.source f.target e.source := by
  unfold area
  ring

theorem mean_pos {a b u : ℚ} (hu : u ∈ Set.Icc (0 : ℚ) 1) (ha : 0 < a) (hb : 0 < b) :
    0 < (1 - u) * a + u * b := by
  obtain ⟨h0, h1⟩ := hu
  rcases h0.eq_or_lt with rfl | hpos
  · linarith
  · have hleft := mul_nonneg (sub_nonneg.2 h1) ha.le
    have hright := mul_pos hpos hb
    linarith

/-- A mean of numbers with one sign vanishes only when both do. -/
theorem eq_zero_of_sign_eq {m n : Int} {u : ℚ} (hu : u ∈ Set.Icc (0 : ℚ) 1)
    (hsign : m.sign = n.sign) (h : (1 - u) * m + u * n = 0) : m = 0 ∧ n = 0 := by
  rcases lt_trichotomy m 0 with hm | rfl | hm
  · have hn : n < 0 := by
      rw [← Int.sign_eq_neg_one_iff_neg, ← hsign, Int.sign_eq_neg_one_iff_neg]
      exact hm
    have hpos := mean_pos hu (a := -m) (b := -n) (by exact_mod_cast neg_pos.2 hm)
      (by exact_mod_cast neg_pos.2 hn)
    linarith
  · exact ⟨rfl, Int.sign_eq_zero_iff_zero.1 hsign.symm⟩
  · have hn : 0 < n := by
      rw [← Int.sign_eq_one_iff_pos, ← hsign, Int.sign_eq_one_iff_pos]
      exact hm
    have hpos := mean_pos hu (a := m) (b := n) (by exact_mod_cast hm) (by exact_mod_cast hn)
    linarith

/-- Between numbers of different signs zero is at a fraction of the way. -/
theorem fraction_of_sign_ne {m n : Int} (h : m.sign ≠ n.sign) :
    ((m : ℚ) - n) ≠ 0 ∧ (m : ℚ) / (m - n) ∈ Set.Icc (0 : ℚ) 1 := by
  have hne : m ≠ n := fun heq => h (congrArg Int.sign heq)
  have hcases : (m ≤ 0 ∧ 0 ≤ n) ∨ (n ≤ 0 ∧ 0 ≤ m) := by
    by_contra hnot
    apply h
    rcases lt_trichotomy m 0 with hm | hm | hm
    · rw [Int.sign_eq_neg_one_of_neg hm, Int.sign_eq_neg_one_of_neg (by omega)]
    · omega
    · rw [Int.sign_eq_one_of_pos hm, Int.sign_eq_one_of_pos (by omega)]
  have hsub : ((m : ℚ) - n) ≠ 0 := sub_ne_zero.2 (by exact_mod_cast hne)
  refine ⟨hsub, ?_⟩
  rcases hcases with ⟨hm, hn⟩ | ⟨hn, hm⟩
  · have hm' : (m : ℚ) ≤ 0 := by exact_mod_cast hm
    have hn' : (0 : ℚ) ≤ n := by exact_mod_cast hn
    have hneg : (m : ℚ) - n < 0 := lt_of_le_of_ne (by linarith) hsub
    exact ⟨div_nonneg_of_nonpos hm' hneg.le, (div_le_one_of_neg hneg).2 (by linarith)⟩
  · have hm' : (0 : ℚ) ≤ m := by exact_mod_cast hm
    have hn' : (n : ℚ) ≤ 0 := by exact_mod_cast hn
    have hpos : 0 < (m : ℚ) - n := lt_of_le_of_ne (by linarith) hsub.symm
    exact ⟨div_nonneg hm' hpos.le, (div_le_one hpos).2 (by linarith)⟩

/-! ## Edges that cross -/

/-- Edges whose ends are on different sides of each other cross, at the fractions at which the areas
vanish. -/
theorem meets_of_crossing {e f : Edge}
    (he : (area e.source e.target f.source).sign ≠ (area e.source e.target f.target).sign)
    (hf : (area f.source f.target e.source).sign ≠ (area f.source f.target e.target).sign) :
    e.Meets f := by
  obtain ⟨hsub, hu⟩ := fraction_of_sign_ne he
  obtain ⟨hsub', ht⟩ := fraction_of_sign_ne hf
  have hucancel := div_mul_cancel₀ (area e.source e.target f.source : ℚ) hsub
  have htcancel := div_mul_cancel₀ (area f.source f.target e.source : ℚ) hsub'
  refine ⟨_, ht, _, hu, ?_⟩
  generalize (area e.source e.target f.source / _ : ℚ) = u at hucancel ⊢
  generalize (area f.source f.target e.source / _ : ℚ) = t at htcancel ⊢
  unfold area at hsub hucancel htcancel
  push_cast at hsub hucancel htcancel
  -- Both sides times the difference of the areas are free of fractions.
  refine Prod.ext (mul_left_cancel₀ hsub ?_) (mul_left_cancel₀ hsub ?_)
  · dsimp only [pointAt]
    linear_combination (e.source.x - e.target.x : ℚ) * htcancel -
      (f.target.x - f.source.x : ℚ) * hucancel
  · dsimp only [pointAt]
    linear_combination (e.source.y - e.target.y : ℚ) * htcancel -
      (f.target.y - f.source.y : ℚ) * hucancel

/-- Edges with a point in common whose sides are different for one are so for the other. -/
theorem sign_ne_of_meets {e f : Edge} (h : e.Meets f)
    (he : (area e.source e.target f.source).sign ≠ (area e.source e.target f.target).sign) :
    (area f.source f.target e.source).sign ≠ (area f.source f.target e.target).sign := by
  intro hf
  obtain ⟨t, ht, u, hu, heq⟩ := h
  obtain ⟨hs, htarget⟩ := eq_zero_of_sign_eq ht hf (area_along heq.symm)
  have hareas := area_sub_area e f
  rw [hs, htarget, sub_self, sub_eq_zero] at hareas
  exact he (congrArg Int.sign hareas)

/-! ## Edges on one line -/

theorem meets_of_passes_source {e f : Edge} (h : e.Passes f.source) : e.Meets f := by
  obtain ⟨t, ht, heq⟩ := h
  exact ⟨t, ht, 0, ⟨le_rfl, zero_le_one⟩, heq.trans f.pointAt_zero.symm⟩

theorem meets_of_passes_target {e f : Edge} (h : e.Passes f.target) : e.Meets f := by
  obtain ⟨t, ht, heq⟩ := h
  exact ⟨t, ht, 1, ⟨zero_le_one, le_rfl⟩, heq.trans f.pointAt_one.symm⟩

theorem meets_iff_of_degenerate {e f : Edge} (h : e.source = e.target) :
    e.Meets f ↔ f.Passes e.source := by
  refine ⟨fun hmeets => ?_, fun hpasses => (meets_of_passes_source hpasses).symm⟩
  obtain ⟨t, -, u, hu, heq⟩ := hmeets
  refine ⟨u, hu, heq.symm.trans ?_⟩
  simp [pointAt, h]

/-- Of two fractions with a mean between zero and one, one is there too, or one is a mean of
them. -/
theorem fraction_cases {v w u : ℚ} (hu : u ∈ Set.Icc (0 : ℚ) 1)
    (h : (1 - u) * v + u * w ∈ Set.Icc (0 : ℚ) 1) :
    v ∈ Set.Icc (0 : ℚ) 1 ∨ w ∈ Set.Icc (0 : ℚ) 1 ∨
      ∃ s ∈ Set.Icc (0 : ℚ) 1, (1 - s) * v + s * w = 1 := by
  by_cases hv : v ∈ Set.Icc (0 : ℚ) 1
  · exact .inl hv
  by_cases hw : w ∈ Set.Icc (0 : ℚ) 1
  · exact .inr (.inl hw)
  refine .inr (.inr ⟨(1 - v) / (w - v), ?_⟩)
  rw [Set.mem_Icc, not_and_or, not_le, not_le] at hv hw
  obtain ⟨h0, h1⟩ := h
  rcases hv with hv | hv <;> rcases hw with hw | hw
  · have := mean_pos hu (neg_pos.2 hv) (neg_pos.2 hw)
    linarith
  · have hd : 0 < w - v := by linarith
    refine ⟨⟨div_nonneg (by linarith) hd.le, (div_le_one hd).2 (by linarith)⟩, ?_⟩
    linarith [div_mul_cancel₀ (1 - v) hd.ne']
  · have hd : w - v < 0 := by linarith
    refine ⟨⟨div_nonneg_of_nonpos (by linarith) hd.le, (div_le_one_of_neg hd).2 (by linarith)⟩, ?_⟩
    linarith [div_mul_cancel₀ (1 - v) hd.ne]
  · have := mean_pos hu (sub_pos.2 hv) (sub_pos.2 hw)
    linarith

/-- Where the ends of an edge are at fractions of another, its points are at their means. -/
theorem pointAt_mean {e f : Edge} {v w : ℚ}
    (hv : e.pointAt v = ((f.source.x : ℚ), (f.source.y : ℚ)))
    (hw : e.pointAt w = ((f.target.x : ℚ), (f.target.y : ℚ))) (u : ℚ) :
    f.pointAt u = e.pointAt ((1 - u) * v + u * w) := by
  obtain ⟨hvx, hvy⟩ := Prod.mk.inj hv
  obtain ⟨hwx, hwy⟩ := Prod.mk.inj hw
  rw [pointAt, ← hvx, ← hvy, ← hwx, ← hwy]
  refine Prod.ext ?_ ?_
  · dsimp only [pointAt]
    ring
  · dsimp only [pointAt]
    ring

/-- The target of an edge is on the line of every edge that lies on its own. -/
theorem area_of_collinear {e f : Edge} (hne : e.source ≠ e.target)
    (hs : area e.source e.target f.source = 0) (ht : area e.source e.target f.target = 0) :
    area f.source f.target e.target = 0 := by
  obtain ⟨v, hv⟩ := exists_pointAt hne hs
  obtain ⟨w, hw⟩ := exists_pointAt hne ht
  obtain ⟨hvx, hvy⟩ := Prod.mk.inj hv
  obtain ⟨hwx, hwy⟩ := Prod.mk.inj hw
  have hline : ((f.target.x - f.source.x) * (e.target.y - f.source.y) -
      (f.target.y - f.source.y) * (e.target.x - f.source.x) : ℚ) = 0 := by
    rw [← hvx, ← hvy, ← hwx, ← hwy]
    ring
  exact_mod_cast hline

/-- Edges on one line meet when one of them passes through an end of the other; the source of the
first needs no look. -/
theorem meets_of_collinear {e f : Edge} (hne : e.source ≠ e.target)
    (hs : area e.source e.target f.source = 0) (ht : area e.source e.target f.target = 0) :
    e.Meets f ↔ e.Passes f.source ∨ e.Passes f.target ∨ f.Passes e.target := by
  constructor
  · intro hmeets
    obtain ⟨v, hv⟩ := exists_pointAt hne hs
    obtain ⟨w, hw⟩ := exists_pointAt hne ht
    obtain ⟨t, htmem, u, hu, heq⟩ := hmeets
    have hmean := pointAt_injective hne (heq.trans (pointAt_mean hv hw u))
    rcases fraction_cases hu (hmean ▸ htmem) with hmem | hmem | ⟨s, hmem, hone⟩
    · exact .inl ⟨v, hmem, hv⟩
    · exact .inr (.inl ⟨w, hmem, hw⟩)
    · refine .inr (.inr ⟨s, hmem, ?_⟩)
      rw [pointAt_mean hv hw, hone, pointAt_one]
  · intro hpasses
    rcases hpasses with h | h | h
    · exact meets_of_passes_source h
    · exact meets_of_passes_target h
    · exact (meets_of_passes_target h).symm

/-! ## The test -/

theorem box_meets_of_meets {e f : Edge} (h : e.Meets f) : e.box.meets f.box = true := by
  obtain ⟨t, ht, u, hu, heq⟩ := h
  obtain ⟨hx, hy⟩ := Prod.mk.inj heq
  have hex := between_of_fraction e.source.x e.target.x ht
  have hey := between_of_fraction e.source.y e.target.y ht
  have hfx := between_of_fraction f.source.x f.target.x hu
  have hfy := between_of_fraction f.source.y f.target.y hu
  rw [hx] at hex
  rw [hy] at hey
  refine Box.meets_iff.2 ⟨⟨?_, ?_⟩, ?_, ?_⟩
  · exact_mod_cast hex.1.trans hfx.2
  · exact_mod_cast hfx.1.trans hex.2
  · exact_mod_cast hey.1.trans hfy.2
  · exact_mod_cast hfy.1.trans hey.2

/-- Where sides are exact, the test of two edges finds out whether they have a point in common. -/
theorem touches_iff_meets {points : List Point} (hexact : Exact points) {e f : Edge}
    (hes : e.source ∈ points) (het : e.target ∈ points) (hfs : f.source ∈ points)
    (hft : f.target ∈ points) : e.touches f = true ↔ e.Meets f := by
  unfold touches
  rw [hexact.side_eq hes het hfs, hexact.side_eq hes het hft, hexact.side_eq hfs hft hes,
    hexact.side_eq hfs hft het]
  split_ifs with hshort hdegenerate hsides
  · refine iff_of_false id fun hmeets => ?_
    rw [box_meets_of_meets hmeets] at hshort
    exact Bool.false_ne_true hshort
  · rw [contains_iff_passes hexact hfs hft hes, meets_iff_of_degenerate hdegenerate]
  · rw [bne_iff_ne]
    exact ⟨meets_of_crossing hsides, fun hmeets => sign_ne_of_meets hmeets hsides⟩
  · have heq := not_ne_iff.1 hsides
    rw [Bool.and_eq_true, beq_iff_eq, Int.sign_eq_zero_iff_zero]
    by_cases hzero : area e.source e.target f.source = 0
    · have hzero' := Int.sign_eq_zero_iff_zero.1 (heq.symm.trans (Int.sign_eq_zero_iff_zero.2 hzero))
      rw [meets_of_collinear hdegenerate hzero hzero', passes_iff, passes_iff, passes_iff]
      simp only [hzero, hzero', area_of_collinear hdegenerate hzero hzero', true_and, and_true,
        Bool.or_eq_true, or_assoc]
    · refine iff_of_false (fun h => hzero h.1) fun hmeets => ?_
      obtain ⟨t, -, u, hu, hpoint⟩ := hmeets
      exact hzero (eq_zero_of_sign_eq hu heq (area_along hpoint)).1

end Edge

end Geocast.Plane
