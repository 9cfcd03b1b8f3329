import Geocast.Proofs.Number.Ranges

/-!
# Rounding errors

A finite double stands for a real number. Sums, products and halves of doubles are off from those of
the numbers by a `2 ^ 53`-th of the result at most, and by next to nothing more where the result is
so small that it has fewer bits.

* `value`: the number that a double stands for.
* `eps`, `slack`: how far off a result can be.
* `value_add`, `value_sub`, `value_mul`, `value_half`: the errors of arithmetic.
-/
namespace Geocast.Binary64
open Float.Model Float.Model.UnpackedFloat

/-! ## Numbers -/

/-- The number of units in one. -/
noncomputable def unit : ℝ := 2 ^ 1074

/-- The number that a double stands for; NaN stands for none and is put at zero. -/
noncomputable def value (x : Float) : ℝ := extent x / unit

/-- The distance of one to the next double, halved. -/
noncomputable def eps : ℝ := 1 / 2 ^ 53

/-- How far the double closest to a number of ordinary size can be off. -/
noncomputable def slack (v : ℝ) : ℝ := |v| * eps + 1 / 2 ^ 100

theorem unit_large : 2 ^ 100 ≤ unit := pow_le_pow_right₀ one_le_two (by decide)

theorem unit_pos : 0 < unit := lt_of_lt_of_le (by positivity) unit_large

theorem unit_split {a b : Nat} (h : a + b = 1074) : unit = (2 ^ a : Nat) * (2 ^ b : Nat) := by
  rw [unit, ← h, pow_add, Nat.cast_pow, Nat.cast_pow, Nat.cast_ofNat]

theorem natCast_unit : ((2 ^ 1074 : Nat) : ℝ) = unit := by
  rw [unit, Nat.cast_pow, Nat.cast_ofNat]

theorem limit_large : 2 ^ 12 * unit ≤ limit := by
  have hpow : ∀ {a b : Nat}, a ≤ b → 2 ^ a ≤ 2 ^ b := Nat.pow_le_pow_right (by decide)
  have hle : 2 ^ 12 * 2 ^ 1074 ≤ limit := Nat.mul_le_mul (hpow (by decide)) (hpow (by decide))
  have hcast : ((2 ^ 12 * 2 ^ 1074 : Nat) : ℝ) = 2 ^ 12 * unit := by
    rw [Nat.cast_mul, natCast_unit, Nat.cast_pow, Nat.cast_ofNat]
  rw [← hcast]
  exact Nat.cast_le.2 hle

theorem eps_pos : 0 < eps := by
  rw [eps]
  positivity

theorem value_of_extent {x : Float} {m a k : Nat} (hk : a + k = 1074)
    (h : extent x = (m * 2 ^ k : Nat)) : value x = m / (2 ^ a : Nat) := by
  have hscale : ((2 ^ k : Nat) : ℝ) ≠ 0 := by exact_mod_cast (Nat.two_pow_pos k).ne'
  rw [value, h, Int.cast_natCast, Nat.cast_mul, unit_split hk, mul_div_mul_right _ _ hscale]

theorem value_of_units {x : Float} {n : Nat} (h : extent x = (n * 2 ^ 1074 : Nat)) :
    value x = n := by
  rw [value_of_extent (Nat.zero_add 1074) h, Nat.pow_zero, Nat.cast_one, div_one]

theorem value_ofNat {n : Nat} (h : n < 2 ^ 53) : value (Float.ofNat n) = n :=
  value_of_units (extent_ofNat_eq h)

theorem value_one : value 1.0 = 1 := by
  rw [value_of_units extent_one_eq, Nat.cast_one]

theorem value_neg (x : Float) : value (-x) = -value x := by
  rw [value, extent_neg, Int.cast_neg, neg_div, value]

theorem value_le {x y : Float} (h : x ≤ y) : value x ≤ value y :=
  div_le_div_of_nonneg_right (Int.cast_le.2 (le_iff.1 h).2.2) unit_pos.le

theorem value_lt {x y : Float} (h : x < y) : value x < value y :=
  div_lt_div_of_pos_right (Int.cast_lt.2 (lt_iff.1 h).2.2) unit_pos

theorem abs_value_le {x b : Float} (h : -b ≤ x ∧ x ≤ b) : |value x| ≤ value b :=
  abs_le.2 ⟨value_neg b ▸ value_le h.1, value_le h.2⟩

theorem eps_small : eps ≤ 1 / 100 := by
  rw [eps]
  norm_num

/-! ## Rounded fractions -/

theorem abs_roundFraction_sub_le (n : Nat) {d : Nat} (hd : 0 < d) :
    |(roundFraction n d : ℝ) - n / d| ≤ (n / d : ℝ) * eps + 1 / 2 := by
  obtain ⟨hover, hunder⟩ := roundFraction_error n hd
  have hpos : (0 : ℝ) < d := by exact_mod_cast hd
  have hover' : (2 ^ 53 * (roundFraction n d * d) : ℝ) ≤ 2 ^ 53 * n + n + 2 ^ 52 * d := by
    exact_mod_cast hover
  have hunder' : (2 ^ 53 * n : ℝ) ≤ 2 ^ 53 * (roundFraction n d * d) + n + 2 ^ 52 * d := by
    exact_mod_cast hunder
  obtain ⟨v, hv⟩ : ∃ v : ℝ, v = n / d := ⟨_, rfl⟩
  have hn : (n : ℝ) = v * d := by rw [hv, div_mul_cancel₀ _ hpos.ne']
  rw [← hv, abs_le, eps]
  rw [hn] at hover' hunder'
  constructor
  · refine le_of_mul_le_mul_right ?_ hpos
    linarith
  · refine le_of_mul_le_mul_right ?_ hpos
    linarith

/-- What is far from the limit is not rounded to it. -/
theorem min_limit_eq {r : Nat} {v : ℝ} (hv : v ≤ 2 ^ 10 * unit)
    (h : |(r : ℝ) - v| ≤ v * eps + 1 / 2) : Min.min r limit = r := by
  have hle : (r : ℝ) ≤ limit := by
    have hlimit := limit_large
    have hunit := unit_large
    have heps : v * eps ≤ 2 ^ 10 * unit * eps := mul_le_mul_of_nonneg_right hv eps_pos.le
    have hsmall : 2 ^ 10 * unit * eps ≤ unit := by
      rw [eps]
      linarith
    have := (abs_le.1 h).2
    linarith
  exact Nat.min_eq_left (by exact_mod_cast hle)

theorem abs_oddly_sub_le {f : Nat → Nat} {c e : ℝ} {z : Int}
    (h : |(f z.natAbs : ℝ) - z.natAbs * c| ≤ e) : |(oddly f z : ℝ) - z * c| ≤ e := by
  rw [oddly]
  split
  next hz =>
    have habs : (z : ℝ) = -(z.natAbs : ℝ) := by
      rw [← Int.cast_natCast z.natAbs, ← Int.cast_neg, Int.ofNat_natAbs_of_nonpos (by omega),
        Int.neg_neg]
    rw [habs, Int.cast_neg, Int.cast_natCast, neg_mul, sub_neg_eq_add, ← abs_neg]
    convert h using 2
    ring
  next hz =>
    have habs : (z : ℝ) = (z.natAbs : ℝ) := by
      rw [← Int.cast_natCast z.natAbs, Int.natAbs_of_nonneg (by omega)]
    rwa [habs, Int.cast_natCast]

theorem natAbs_cast (z : Int) : (z.natAbs : ℝ) = |(z : ℝ)| := by
  rw [Nat.cast_natAbs, Int.cast_abs]

/-- Rounding a number of units is off by a part of it, or by half a unit. -/
theorem abs_rounded_sub_le {z : Int} (h : |(z : ℝ)| ≤ 2 ^ 10 * unit) :
    |(rounded z : ℝ) - z| ≤ |(z : ℝ)| * eps + 1 / 2 := by
  have herror := abs_roundFraction_sub_le z.natAbs Nat.one_pos
  rw [Nat.cast_one, div_one, ← roundWhole_eq] at herror
  have hmin := min_limit_eq (by rwa [natAbs_cast]) herror
  have hodd := abs_oddly_sub_le (f := fun n => Min.min (roundWhole n) limit) (c := 1) (z := z)
    (e := |(z : ℝ)| * eps + 1 / 2) (by rwa [hmin, mul_one, ← natAbs_cast])
  rwa [mul_one] at hodd

/-! ## Errors of arithmetic -/

theorem abs_value_sub_le {x : Float} {v : ℝ}
    (h : |(extent x : ℝ) - v * unit| ≤ |v * unit| * eps + 1 / 2) : |value x - v| ≤ slack v := by
  have hunit := unit_pos
  have hlarge := unit_large
  have hscaled : |value x - v| * unit ≤ slack v * unit := by
    have hvalue : |value x - v| * unit = |(extent x : ℝ) - v * unit| := by
      rw [value, ← abs_of_pos hunit, ← abs_mul, abs_of_pos hunit, sub_mul,
        div_mul_cancel₀ _ hunit.ne']
    rw [hvalue, slack, add_mul]
    rw [abs_mul, abs_of_pos hunit] at h
    have hhalf : (1 / 2 : ℝ) ≤ 1 / 2 ^ 100 * unit := by linarith
    linarith
  exact le_of_mul_le_mul_right hscaled hunit

theorem value_mul_unit (x : Float) : value x * unit = extent x := div_mul_cancel₀ _ unit_pos.ne'

theorem abs_mul_unit_le {v : ℝ} (h : |v| ≤ 2 ^ 10) : |v * unit| ≤ 2 ^ 10 * unit := by
  rw [abs_mul, abs_of_pos unit_pos]
  exact mul_le_mul_of_nonneg_right h unit_pos.le

theorem abs_value (x : Float) : |value x| = (extent x).natAbs / unit := by
  rw [value, abs_div, abs_of_pos unit_pos, natAbs_cast]

section Arithmetic
variable {x y : Float} (hx : x.isFinite = true) (hy : y.isFinite = true)
include hx hy

theorem value_add (h : |value x + value y| ≤ 2 ^ 10) :
    |value (x + y) - (value x + value y)| ≤ slack (value x + value y) := by
  have hsum : (value x + value y) * unit = (extent x + extent y : Int) := by
    rw [add_mul, value_mul_unit, value_mul_unit, Int.cast_add]
  have hle := abs_mul_unit_le h
  refine abs_value_sub_le ?_
  rw [hsum] at hle ⊢
  rw [extent_add hx hy]
  exact abs_rounded_sub_le hle

theorem value_sub (h : |value x - value y| ≤ 2 ^ 10) :
    |value (x - y) - (value x - value y)| ≤ slack (value x - value y) := by
  have hdifference : (value x - value y) * unit = (extent x - extent y : Int) := by
    rw [sub_mul, value_mul_unit, value_mul_unit, Int.cast_sub]
  have hle := abs_mul_unit_le h
  refine abs_value_sub_le ?_
  rw [hdifference] at hle ⊢
  rw [extent_sub hx hy]
  exact abs_rounded_sub_le hle

theorem value_mul (hplus : Plus y) (h : |value x * value y| ≤ 2 ^ 10) :
    |value (x * y) - value x * value y| ≤ slack (value x * value y) := by
  have hle := abs_mul_unit_le h
  refine abs_value_sub_le ?_
  have hexact : value x * value y * unit = extent x * value y := by
    rw [mul_right_comm, value_mul_unit]
  rw [hexact] at hle ⊢
  rcases parts_of_isFinite hy with ⟨s, hs⟩ | ⟨s, m, e, hm, hs⟩
  · have hzero : IsZero (x * y) := IsZero.mul hx ⟨s, hs⟩
    have hnone : value y = 0 := by rw [value, IsZero.extent ⟨s, hs⟩, Int.cast_zero, zero_div]
    rw [hzero.extent, hnone, mul_zero, Int.cast_zero, sub_zero, abs_zero, zero_mul]
    norm_num
  · obtain rfl : s = .positive := by
      cases s with
      | positive => rfl
      | negative => exact absurd (by rw [hs]; rfl) hplus
    obtain ⟨k, hk⟩ : ∃ k, k = magnitude m e := ⟨_, rfl⟩
    have hvalue : value y = k / unit := by
      rw [value, extent, hs, hk]
      rfl
    have herror :=
      abs_roundFraction_sub_le ((extent x).natAbs * k) (show 0 < 2 ^ 1074 by positivity)
    rw [← roundProduct_eq, Nat.cast_mul, natCast_unit, mul_div_assoc, ← hvalue] at herror
    have hnonneg : 0 ≤ value y := by
      rw [hvalue]
      exact div_nonneg (Nat.cast_nonneg k) unit_pos.le
    have hsize : ((extent x).natAbs : ℝ) * value y = |(extent x : ℝ) * value y| := by
      rw [abs_mul, abs_of_nonneg hnonneg, natAbs_cast]
    have hmin := min_limit_eq (by rwa [hsize]) herror
    rw [extent_mul (isNaN_of_isFinite hx) hs, ← hk]
    refine abs_oddly_sub_le ?_
    rw [stretch, if_pos (isFinite_iff.1 hx).2, hmin, ← hsize]
    exact herror

omit hy in
theorem value_half (h : |value x / 2| ≤ 2 ^ 10) :
    |value (x / 2.0) - value x / 2| ≤ slack (value x / 2) := by
  have hle := abs_mul_unit_le h
  refine abs_value_sub_le ?_
  have hexact : value x / 2 * unit = extent x * (1 / 2) := by
    rw [← value_mul_unit x]
    ring
  have htwo : (2.0 : Float).isFinite = true := rfl
  have herror := abs_roundFraction_sub_le (extent x).natAbs (d := 2) (by decide)
  have hsize : ((extent x).natAbs : ℝ) / (2 : Nat) = |(extent x : ℝ) * (1 / 2)| := by
    rw [abs_mul, ← natAbs_cast, Nat.cast_ofNat, abs_of_pos (by norm_num : (0 : ℝ) < 1 / 2)]
    ring
  rw [hexact] at hle ⊢
  rw [hsize] at herror
  have hmin := min_limit_eq hle herror
  rw [extent_div_of_extent hx htwo (by decide) extent_two]
  refine abs_oddly_sub_le ?_
  rw [hmin]
  convert herror using 3
  rw [← hsize]
  push_cast
  ring

end Arithmetic

/-! ## Errors that are carried on -/

theorem slack_le {v c : ℝ} (h : |v| ≤ c) : slack v ≤ (c + 1) * eps := by
  have hsmall : 1 / 2 ^ 100 ≤ eps := by
    rw [eps]
    norm_num
  rw [slack, add_mul, one_mul]
  exact add_le_add (mul_le_mul_of_nonneg_right h eps_pos.le) hsmall

theorem WithinOne.abs_value_le {x : Float} (h : WithinOne x) : |value x| ≤ 1 := by
  have hle : ((extent x).natAbs : ℝ) ≤ (extent 1.0).natAbs := by exact_mod_cast h.le
  have hone : |value 1.0| = 1 := by rw [value_one, abs_one]
  rw [abs_value] at hone ⊢
  exact (div_le_div_of_nonneg_right hle unit_pos.le).trans hone.le

section Carried
variable {x y : Float} {v w e f : ℝ}

/-- The errors of factors up to one add up. -/
theorem value_mul_near (hx : WithinOne x) (hy : WithinOne y) (hplus : Plus y) (hw : |w| ≤ 1)
    (he : |value x - v| ≤ e) (hf : |value y - w| ≤ f) :
    |value (x * y) - v * w| ≤ e + f + 2 * eps := by
  have hvx := hx.abs_value_le
  have hproduct : |value x * value y| ≤ 1 := by
    rw [abs_mul]
    exact mul_le_one₀ hvx (abs_nonneg _) hy.abs_value_le
  have hround := value_mul hx.isFinite hy.isFinite hplus (hproduct.trans (by norm_num))
  have hslack := slack_le hproduct
  have hsplit : value x * value y - v * w = value x * (value y - w) + (value x - v) * w := by ring
  have hexact : |value x * value y - v * w| ≤ 1 * f + e * 1 := by
    rw [hsplit]
    refine (abs_add_le _ _).trans ?_
    rw [abs_mul, abs_mul]
    exact add_le_add (mul_le_mul hvx hf (abs_nonneg _) zero_le_one)
      (mul_le_mul he hw (abs_nonneg _) ((abs_nonneg _).trans he))
  have htri := abs_sub_le (value (x * y)) (value x * value y) (v * w)
  linarith

/-- The error of a number up to one counts twice in its square. -/
theorem value_square_near (hx : WithinOne x) (hv : |v| ≤ 1) (he : |value x - v| ≤ e) :
    |value (x * x) - v ^ 2| ≤ 2 * e + 2 * eps := by
  rw [two_mul e]
  rcases plus_or_plus_neg x with h | h
  · rw [sq]
    exact value_mul_near hx hx h hv he he
  · have hturned : |value (-x) - -v| ≤ e := by rwa [value_neg, neg_sub_neg, abs_sub_comm]
    rw [← neg_mul_neg_self, ← neg_sq, sq]
    exact value_mul_near hx.neg hx.neg h (by rwa [abs_neg]) hturned hturned

/-- The errors of summands up to one add up. -/
theorem value_add_near (hx : WithinOne x) (hy : WithinOne y) (he : |value x - v| ≤ e)
    (hf : |value y - w| ≤ f) : |value (x + y) - (v + w)| ≤ e + f + 3 * eps := by
  have hsum : |value x + value y| ≤ 2 := by
    refine (abs_add_le _ _).trans ?_
    linarith [hx.abs_value_le, hy.abs_value_le]
  have hround := value_add hx.isFinite hy.isFinite (hsum.trans (by norm_num))
  have hslack := slack_le hsum
  have hexact : |value x + value y - (v + w)| ≤ e + f := by
    rw [add_sub_add_comm]
    exact (abs_add_le _ _).trans (add_le_add he hf)
  have htri := abs_sub_le (value (x + y)) (value x + value y) (v + w)
  linarith

end Carried

end Geocast.Binary64
