import Geocast.Proofs.Geofence.Frame
import Geocast.Proofs.Number.Roots
import Geocast.Proofs.Number.Sine

/-!
# Chords of the globe

A distance is found from the square of half the chord, by the haversine formula: the squared sine of
half the difference of the latitudes, and the cosines of both latitudes times the squared sine of
half the difference of the longitudes. On the globe every factor is a number up to one, so the
rounded square is never below zero. It is next to the square of the true chord, which is at most
one; but for antipodal places the true one is one, and the rounded one can be more.

* `halfChord`: the square of half the true chord of two places.
* `halfChord_eq`: the haversine formula.
* `halfChordSquare_range`: the rounded square is from zero to two.
* `halfChordSquare_near`: it is off by at most `2 ^ -46`.
-/
namespace Geocast.Location
open Binary64 Trigonometry

/-! ## True chords -/

noncomputable def radians (d : ℝ) : ℝ := d * (Real.pi / 180)

/-- The latitude of a location as a number, in radians. -/
noncomputable def latitude (p : Location) : ℝ := radians (value p.lat)

/-- The longitude of a location as a number, in radians. -/
noncomputable def longitude (p : Location) : ℝ := radians (value p.lon)

/-- The place on a globe of radius one, in three coordinates. -/
noncomputable def place (p : Location) : ℝ × ℝ × ℝ :=
  (Real.cos p.latitude * Real.cos p.longitude, Real.cos p.latitude * Real.sin p.longitude,
    Real.sin p.latitude)

/-- The square of half the chord between two places on a globe of radius one. -/
noncomputable def halfChord (p q : Location) : ℝ :=
  ((p.place.1 - q.place.1) ^ 2 + (p.place.2.1 - q.place.2.1) ^ 2 +
    (p.place.2.2 - q.place.2.2) ^ 2) / 4

theorem place_sphere (p : Location) : p.place.1 ^ 2 + p.place.2.1 ^ 2 + p.place.2.2 ^ 2 = 1 := by
  simp only [place, mul_pow]
  rw [← mul_add, Real.cos_sq_add_sin_sq, mul_one, Real.cos_sq_add_sin_sq]

/-- What a chord leaves of the diameter is the chord to the antipode. -/
theorem one_sub_halfChord (p q : Location) :
    1 - p.halfChord q = ((p.place.1 + q.place.1) ^ 2 + (p.place.2.1 + q.place.2.1) ^ 2 +
      (p.place.2.2 + q.place.2.2) ^ 2) / 4 := by
  rw [halfChord]
  linear_combination (-1 / 2) * place_sphere p - (1 / 2) * place_sphere q

theorem halfChord_le_one (p q : Location) : p.halfChord q ≤ 1 := by
  rw [← sub_nonneg, one_sub_halfChord]
  positivity

theorem sin_half_sq (t : ℝ) : Real.sin (t / 2) ^ 2 = (1 - Real.cos t) / 2 := by
  rw [Real.sin_sq_eq_half_sub, mul_div_cancel₀ t two_ne_zero]
  ring

/-- The haversine formula. -/
theorem halfChord_eq (p q : Location) : p.halfChord q =
    Real.sin ((q.latitude - p.latitude) / 2) ^ 2 +
      Real.cos p.latitude * Real.cos q.latitude *
        Real.sin ((q.longitude - p.longitude) / 2) ^ 2 := by
  have hp := place_sphere p
  have hq := place_sphere q
  rw [sin_half_sq, sin_half_sq, Real.cos_sub, Real.cos_sub]
  simp only [halfChord, place] at hp hq ⊢
  linear_combination (1 / 4) * hp + (1 / 4) * hq

/-! ## Degrees -/

theorem abs_pi_le : |Real.pi / 180| ≤ 1 / 57 := by
  have hpi := Real.pi_pos
  have hpi' := Real.pi_lt_d20
  rw [abs_of_pos (by positivity)]
  norm_num at hpi' ⊢
  linarith

theorem degree_near : |value degree - Real.pi / 180| ≤ eps / 360 := by
  have hplace : extent degree = (5030569068109113 * 2 ^ 1016 : Nat) := by decide +kernel
  have hvalue : value degree = (5030569068109113 : Nat) / (2 ^ 58 : Nat) :=
    value_of_extent (a := 58) (k := 1016) rfl hplace
  have hpi := Real.pi_gt_d20
  have hpi' := Real.pi_lt_d20
  rw [hvalue, eps, abs_le]
  norm_num at hpi hpi' ⊢
  constructor <;> linarith

/-- Degrees are turned into radians with an error of some roundings. -/
theorem toRadians_near {x : Float} {c : ℝ} (hx : x.isFinite = true) (hle : |value x| ≤ c)
    (hc : c ≤ 360) : |value (toRadians x) - radians (value x)| ≤ (c / 45 + 1) * eps := by
  have heps := eps_pos
  have hsmall := eps_small
  have hnear := degree_near
  have hpi := abs_pi_le
  have hpos : 0 ≤ c := (abs_nonneg _).trans hle
  obtain ⟨m, e, hm, hparts⟩ : ∃ m e hm, degree.toModel.unpack = .finite .positive m e hm :=
    ⟨_, _, _, rfl⟩
  have hplus : Plus degree := by
    rw [Plus, hparts]
    exact positive_ne_negative
  have hdegree : |value degree| ≤ 1 / 56 := by
    have htri := abs_sub_le (value degree) (Real.pi / 180) 0
    rw [sub_zero, sub_zero] at htri
    linarith
  have hproduct : |value x * value degree| ≤ c * (1 / 56) := by
    rw [abs_mul]
    exact mul_le_mul hle hdegree (abs_nonneg _) hpos
  have hround := value_mul hx rfl hplus (hproduct.trans (by linarith))
  have hslack := slack_le hproduct
  have hexact : |value x * value degree - radians (value x)| ≤ c * (eps / 360) := by
    rw [radians, ← mul_sub, abs_mul]
    exact mul_le_mul hle hnear (abs_nonneg _) hpos
  have htri := abs_sub_le (value (toRadians x)) (value x * value degree) (radians (value x))
  have hsum : (c * (1 / 56) + 1) * eps + c * (eps / 360) ≤ (c / 45 + 1) * eps := by
    have := mul_nonneg hpos heps.le
    linarith
  rw [toRadians] at htri ⊢
  linarith

/-! ## Haversines -/

theorem isFinite_coordinate {x : Float} (h : -180.0 ≤ x ∧ x ≤ 180.0) : x.isFinite = true := by
  have hseam : (180.0 : Float).isFinite = true := rfl
  have hseam' : (-180.0 : Float).isFinite = true := rfl
  exact isFinite_of_between hseam' hseam h.1 h.2

theorem sub_range {x y : Float} (hx : -180.0 ≤ x ∧ x ≤ 180.0) (hy : -180.0 ≤ y ∧ y ≤ 180.0) :
    -360.0 ≤ x - y ∧ x - y ≤ 360.0 := by
  have hfx := isFinite_coordinate hx
  have hfy := isFinite_coordinate hy
  have hturn : (360.0 : Float).isFinite = true := rfl
  have hturn' : (-360.0 : Float).isFinite = true := rfl
  have hwest : extent (-360.0) ≤ extent (-180.0) - extent 180.0 := by decide +kernel
  have heast : extent 180.0 - extent (-180.0) ≤ extent 360.0 := by decide +kernel
  have hnumber := isNaN_sub hfx hfy
  rw [le_iff, le_iff] at hx hy
  rw [le_iff, le_iff, extent_sub hfx hfy, ← rounded_extent hturn, ← rounded_extent hturn']
  exact ⟨⟨rfl, hnumber, rounded_mono (by omega)⟩, hnumber, rfl, rounded_mono (by omega)⟩

theorem isFinite_toRadians {x : Float} (h : -360.0 ≤ x ∧ x ≤ 360.0) :
    (toRadians x).isFinite = true := by
  have hturn : (toRadians 360.0).isFinite = true := rfl
  have hturn' : (toRadians (-360.0)).isFinite = true := rfl
  exact isFinite_of_between hturn' hturn (toRadians_le h.1) (toRadians_le h.2)

theorem haversine_range {x : Float} (h : x.isFinite = true) :
    Plus (haversine x) ∧ WithinOne (haversine x) :=
  (sin_range (isFinite_half h)).square

section Difference
variable {x y : Float} (hx : -180.0 ≤ x ∧ x ≤ 180.0) (hy : -180.0 ≤ y ∧ y ≤ 180.0)
include hx hy

theorem isFinite_difference : (toRadians (x - y)).isFinite = true :=
  isFinite_toRadians (sub_range hx hy)

theorem abs_sub_value_le : |value x - value y| ≤ 360 := by
  have hbound : value 180.0 = (180 : Nat) := value_ofNat (n := 180) (by decide)
  have hvx := abs_value_le hx
  have hvy := abs_value_le hy
  rw [hbound, Nat.cast_ofNat] at hvx hvy
  exact (abs_sub _ _).trans (by linarith)

theorem abs_difference_le : |radians (value x) - radians (value y)| ≤ 360 * (1 / 57) := by
  rw [radians, radians, ← sub_mul, abs_mul]
  exact mul_le_mul (abs_sub_value_le hx hy) abs_pi_le (abs_nonneg _) (by norm_num)

theorem difference_near :
    |value (toRadians (x - y)) - (radians (value x) - radians (value y))| ≤ 16 * eps := by
  have heps := eps_pos
  have hrange := sub_range hx hy
  have hfx := isFinite_coordinate hx
  have hfy := isFinite_coordinate hy
  have hturn : (360.0 : Float).isFinite = true := rfl
  have hturn' : (-360.0 : Float).isFinite = true := rfl
  have hfd := isFinite_of_between hturn' hturn hrange.1 hrange.2
  have hbound : value 360.0 = (360 : Nat) := value_ofNat (n := 360) (by decide)
  have hvd := abs_value_le hrange
  rw [hbound, Nat.cast_ofNat] at hvd
  have hd := abs_sub_value_le hx hy
  have hsub := (value_sub hfx hfy (hd.trans (by norm_num))).trans (slack_le hd)
  have hangle : |radians (value (x - y)) - (radians (value x) - radians (value y))| ≤ 7 * eps := by
    rw [radians, radians, radians, ← sub_mul, ← sub_mul, abs_mul]
    refine (mul_le_mul hsub abs_pi_le (abs_nonneg _) (by linarith)).trans ?_
    linarith
  have hradians := toRadians_near hfd hvd (le_refl _)
  have htri := abs_sub_le (value (toRadians (x - y))) (radians (value (x - y)))
    (radians (value x) - radians (value y))
  linarith

theorem halfDifference_near :
    |value (toRadians (x - y) / 2.0) - (radians (value x) - radians (value y)) / 2| ≤
      13 * eps := by
  have hsmall := eps_small
  have hnear := difference_near hx hy
  have hsize : |value (toRadians (x - y)) / 2| ≤ 4 := by
    have hturns := abs_difference_le hx hy
    have htri := abs_sub_le (value (toRadians (x - y))) (radians (value x) - radians (value y)) 0
    rw [sub_zero, sub_zero] at htri
    rw [abs_div, abs_two]
    linarith
  have hhalf := (value_half (isFinite_difference hx hy) (hsize.trans (by norm_num))).trans
    (slack_le hsize)
  have hexact : |value (toRadians (x - y)) / 2 - (radians (value x) - radians (value y)) / 2| ≤
      16 * eps / 2 := by
    rw [← sub_div, abs_div, abs_two]
    exact div_le_div_of_nonneg_right hnear zero_le_two
  have htri := abs_sub_le (value (toRadians (x - y) / 2.0)) (value (toRadians (x - y)) / 2)
    ((radians (value x) - radians (value y)) / 2)
  linarith

theorem haversine_near : |value (haversine (toRadians (x - y))) -
    Real.sin ((radians (value x) - radians (value y)) / 2) ^ 2| ≤ 32 * eps := by
  have hfinite := isFinite_difference hx hy
  have hhalf := isFinite_half hfinite
  have hle : (extent (toRadians (x - y))).natAbs ≤ (extent (toRadians 360.0)).natAbs := by
    have hturned : -extent (toRadians 360.0) ≤ extent (toRadians (-360.0)) := by decide +kernel
    obtain ⟨hlow, hhigh⟩ := sub_range hx hy
    have hlow' := (le_iff.1 (toRadians_le hlow)).2.2
    have hhigh' := (le_iff.1 (toRadians_le hhigh)).2.2
    omega
  have hsine := abs_value_sin_sub_le hhalf (natAbs_half_le hfinite rfl hle)
  have hmove := (Real.abs_sin_sub_sin_le _ _).trans (halfDifference_near hx hy)
  have hnear : |value (sin (toRadians (x - y) / 2.0)) -
      Real.sin ((radians (value x) - radians (value y)) / 2)| ≤ 15 * eps := by
    refine (abs_sub_le _ (Real.sin (value (toRadians (x - y) / 2.0))) _).trans ?_
    linarith
  refine (value_square_near (sin_range hhalf) (Real.abs_sin_le_one _) hnear).trans ?_
  linarith

end Difference

/-! ## Squares of half the chord -/

section Latitude
variable {p : Location} (h : p.isValid = true)
include h

theorem lat_range : -180.0 ≤ p.lat ∧ p.lat ≤ 180.0 := by
  obtain ⟨⟨hsouth, hnorth⟩, -⟩ := isValid_iff.1 h
  exact ⟨le_trans (by decide +kernel) hsouth, le_trans hnorth (by decide +kernel)⟩

theorem within_latitude : WithinQuarter (toRadians p.lat) := by
  obtain ⟨⟨hsouth, hnorth⟩, -⟩ := isValid_iff.1 h
  exact ⟨toRadians_le hsouth, toRadians_le hnorth⟩

theorem cosine_range : Plus (cos (toRadians p.lat)) ∧ WithinOne (cos (toRadians p.lat)) := by
  have hwithin := within_latitude h
  exact ⟨plus_cos hwithin, cos_range (isFinite_of_between rfl rfl hwithin.1 hwithin.2)⟩

theorem cosine_near : |value (cos (toRadians p.lat)) - Real.cos p.latitude| ≤ 5 * eps := by
  have hbound : value 90.0 = (90 : Nat) := value_ofNat (n := 90) (by decide)
  have hvalue := abs_value_le (isValid_iff.1 h).1
  rw [hbound, Nat.cast_ofNat] at hvalue
  have hradians := toRadians_near (isFinite_lat h) hvalue (by norm_num)
  have hcos := abs_value_cos_sub_le (within_latitude h)
  have hmove := Real.abs_cos_sub_cos_le (value (toRadians p.lat)) p.latitude
  have htri := abs_sub_le (value (cos (toRadians p.lat))) (Real.cos (value (toRadians p.lat)))
    (Real.cos p.latitude)
  rw [latitude] at hmove htri ⊢
  linarith

end Latitude

section Pair
variable {p q : Location} (hp : p.isValid = true) (hq : q.isValid = true)
include hp hq

theorem latTerm_range : Plus (haversine (toRadians (q.lat - p.lat))) ∧
    WithinOne (haversine (toRadians (q.lat - p.lat))) :=
  haversine_range (isFinite_difference (lat_range hq) (lat_range hp))

theorem lonTerm_range :
    Plus (cos (toRadians p.lat) * cos (toRadians q.lat) * haversine (toRadians (q.lon - p.lon))) ∧
      WithinOne (cos (toRadians p.lat) * cos (toRadians q.lat) *
        haversine (toRadians (q.lon - p.lon))) := by
  obtain ⟨hplus, hone⟩ :=
    haversine_range (isFinite_difference (isValid_iff.1 hq).2 (isValid_iff.1 hp).2)
  obtain ⟨hcos, hcos1⟩ := cosine_range hp
  obtain ⟨hcos', hcos1'⟩ := cosine_range hq
  exact ⟨(hcos.mul hcos').mul hplus, (hcos1.mul hcos1' hcos hcos').mul hone (hcos.mul hcos') hplus⟩

theorem plus_halfChordSquare : Plus (p.viewpoint.halfChordSquare q) :=
  (latTerm_range hp hq).1.add (lonTerm_range hp hq).1

theorem halfChordSquare_range :
    0.0 ≤ p.viewpoint.halfChordSquare q ∧ p.viewpoint.halfChordSquare q ≤ 2.0 := by
  obtain ⟨-, hone⟩ := latTerm_range hp hq
  obtain ⟨-, hone'⟩ := lonTerm_range hp hq
  have htwo : (2.0 : Float).isFinite = true := rfl
  have hdouble : extent 2.0 = 2 * extent 1.0 := by
    rw [extent_two, extent_one_eq, Nat.one_mul, Nat.cast_mul, Nat.cast_ofNat]
  have hsum := extent_add hone.isFinite hone'.isFinite
  have hnumber := isNaN_add hone.isFinite hone'.isFinite
  have hle : rounded (extent (haversine (toRadians (q.lat - p.lat))) +
      extent (cos (toRadians p.lat) * cos (toRadians q.lat) *
        haversine (toRadians (q.lon - p.lon)))) ≤ rounded (extent 2.0) := by
    have h1 := hone.le
    have h2 := hone'.le
    have h3 := natAbs_extent_one
    exact rounded_mono (by omega)
  rw [rounded_extent htwo, ← hsum] at hle
  have hnotNaN : ¬ (p.viewpoint.halfChordSquare q).isNaN = true := by
    rw [Bool.not_eq_true]
    exact hnumber
  exact ⟨(plus_halfChordSquare hp hq).isNaN_or_le.resolve_left hnotNaN,
    le_iff.2 ⟨hnumber, rfl, hle⟩⟩

theorem isFinite_halfChordSquare : (p.viewpoint.halfChordSquare q).isFinite = true := by
  obtain ⟨hzero, hle⟩ := halfChordSquare_range hp hq
  exact isFinite_of_between rfl rfl hzero hle

theorem halfChordSquare_near :
    |value (p.viewpoint.halfChordSquare q) - p.halfChord q| ≤ 1 / 2 ^ 46 := by
  obtain ⟨hplus, hone⟩ :=
    haversine_range (isFinite_difference (isValid_iff.1 hq).2 (isValid_iff.1 hp).2)
  obtain ⟨hcos, hcos1⟩ := cosine_range hp
  obtain ⟨hcos', hcos1'⟩ := cosine_range hq
  have hlat := haversine_near (lat_range hq) (lat_range hp)
  have hlon := haversine_near (isValid_iff.1 hq).2 (isValid_iff.1 hp).2
  have hsquare : ∀ t : ℝ, |Real.sin t ^ 2| ≤ 1 := fun t => by
    rw [abs_of_nonneg (sq_nonneg _)]
    exact Real.sin_sq_le_one t
  have hcosines := value_mul_near hcos1 hcos1' hcos' (Real.abs_cos_le_one _) (cosine_near hp)
    (cosine_near hq)
  have hterm := value_mul_near (hcos1.mul hcos1' hcos hcos') hone hplus (hsquare _) hcosines hlon
  have hsum := value_add_near (latTerm_range hp hq).2 (lonTerm_range hp hq).2 hlat hterm
  rw [halfChord_eq]
  refine hsum.trans ?_
  rw [eps]
  norm_num

end Pair

end Geocast.Location
